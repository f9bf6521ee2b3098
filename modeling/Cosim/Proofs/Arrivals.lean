import Cosim.Proofs.Histories
import Cosim.Proofs.Presence
import Mathlib.Data.List.DropRight

/-!
# Snapshots by the order of arrival

Records are put into a snapshot in any order, some of them more than once or for cores that there
are not, and now and then the snapshot is reset.

* `Snapshot.after` is a snapshot after such a history, and `Snapshot.recent` are the puts since its
  last reset.  `Snapshot.Recalls` ties the two: the slot of a core holds the first of these puts
  that names the core.
* `Snapshot.has_after` says the same by the puts that succeeded.
* `Rollcall.after` is a row of records with its word after the same history, and
  `Rollcall.Keeps.after` says that it still stands for the snapshot.
* `Snapshot.ByHistory` collects what holds after any history, and `Snapshot.contents_by_history`
  is the main statement.
-/

namespace Cosim.Snapshot

/-- What can be done to a snapshot between two hand-overs. -/
inductive Act where
  | put (core : Int) (state : CoreState)
  | reset
deriving DecidableEq

/-- The core and the record of a put. -/
def Act.record? : Act → Option (Int × CoreState)
  | .put core state => some (core, state)
  | .reset => none

/-- A put that is refused leaves the snapshot as it is. -/
def act (s : Snapshot) : Act → Snapshot
  | .put core state =>
    match s.put core state with
    | .ok s' => s'
    | .error _ => s
  | .reset => s.reset

/-- A snapshot after a history. -/
def after (s : Snapshot) (acts : List Act) : Snapshot := acts.foldl act s

/-- The puts since the last reset. -/
def recent (acts : List Act) : List (Int × CoreState) :=
  (acts.rtakeWhile (· ≠ .reset)).filterMap Act.record?

variable {s s' : Snapshot} {cores : Nat} {acts : List Act} {core other : Int} {state : CoreState}
  {puts : List (Nat × CoreState)}

theorem after_concat (s : Snapshot) (acts : List Act) (a : Act) :
    s.after (acts ++ [a]) = (s.after acts).act a := by
  simp [after]

theorem recent_reset (acts : List Act) : recent (acts ++ [.reset]) = [] := by
  simp [recent]

/-- A further put is the first one of its core if the core had none. -/
theorem lookup_recent_put (acts : List Act) (core other : Int) (state : CoreState) :
    (recent (acts ++ [.put core state])).lookup other =
      ((recent acts).lookup other).or (if other = core then some state else none) := by
  have hlast : List.lookup other [(core, state)] = if other = core then some state else none := by
    by_cases hsame : other = core
    · simp [hsame]
    · simp [hsame, List.lookup_cons, beq_false_of_ne hsame]
  rw [← hlast, ← List.lookup_append]
  simp [recent, Act.record?]

/-! ## The first put counts -/

/-- The snapshot holds these records, and they are the first puts of their cores since the last
reset. -/
structure Recalls (s : Snapshot) (cores : Nat) (acts : List Act) (puts : List (Nat × CoreState)) :
    Prop where
  holds : s.Holds cores puts
  seq_eq : s.seq = 0
  mem_iff : ∀ core state, (core, state) ∈ puts ↔
    core < cores ∧ (recent acts).lookup (core : Int) = some state

/-- A further put changes the first put of no core, or else it is filed. -/
theorem Recalls.put (h : s.Recalls cores acts puts) (core : Int) (state : CoreState) :
    ∃ puts', (s.act (.put core state)).Recalls cores (acts ++ [.put core state]) puts' := by
  cases hput : s.put core state with
  | error e =>
    have hact : s.act (.put core state) = s := by simp only [act, hput]
    refine ⟨puts, by rw [hact]; exact h.holds, by rw [hact]; exact h.seq_eq, fun c st => ?_⟩
    rw [h.mem_iff, lookup_recent_put]
    refine and_congr_right fun hc => ?_
    by_cases hsame : (c : Int) = core
    · rcases h.holds.put_error hput with ⟨-, hrange⟩ | ⟨-, -, -, old, hold⟩
      · omega
      · rw [← hsame, Int.toNat_natCast, h.mem_iff] at hold
        simp [hold.2]
    · simp [hsame]
  | ok s' =>
    have hact : s.act (.put core state) = s' := by simp only [act, hput]
    obtain ⟨hnonneg, hlt, hfresh, hholds⟩ := h.holds.put_ok hput
    have hseq : s'.seq = s.seq := by
      unfold Snapshot.put at hput
      split at hput
      · cases hput
      · split at hput
        · cases hput
        · cases hput
          rfl
    refine ⟨_, by rw [hact]; exact hholds, by rw [hact, hseq, h.seq_eq], fun c st => ?_⟩
    rw [List.mem_append, List.mem_singleton, h.mem_iff, lookup_recent_put]
    by_cases hsame : (c : Int) = core
    · obtain rfl : c = core.toNat := by omega
      have hnone : (recent acts).lookup core = none := by
        cases hold : (recent acts).lookup core with
        | none => rfl
        | some old =>
          rw [← hsame] at hold
          exact absurd ((h.mem_iff core.toNat old).mpr ⟨by omega, hold⟩) (hfresh old)
      rw [hsame, hnone, if_pos rfl, Option.none_or, Option.some.injEq, Prod.mk.injEq]
      refine ⟨?_, fun hst => .inr ⟨rfl, hst.2.symm⟩⟩
      rintro (⟨-, hnot⟩ | ⟨-, rfl⟩)
      · cases hnot
      · exact ⟨by omega, rfl⟩
    · have hne : c ≠ core.toNat := by omega
      simp [hsame, hne]

theorem exists_recalls {n : Int} (hcreate : create n = .ok s) (acts : List Act) :
    ∃ puts, (s.after acts).Recalls n.toNat acts puts := by
  induction acts using List.reverseRecOn with
  | nil =>
    refine ⟨[], holds_create hcreate, ?_, by simp [recent]⟩
    unfold create at hcreate
    split at hcreate
    · cases hcreate
      rfl
    · cases hcreate
  | append_singleton acts a ih =>
    obtain ⟨puts, h⟩ := ih
    rw [after_concat]
    cases a with
    | put core state => exact h.put core state
    | reset => exact ⟨[], holds_reset h.holds.cores_eq, h.seq_eq, by simp [recent_reset]⟩

namespace Recalls

variable {puts' : List (Nat × CoreState)} {acts' : List Act}

theorem slot_eq (h : s.Recalls cores acts puts) {core : Nat} (hcore : core < cores) :
    s.slots[core]? = some ((recent acts).lookup (core : Int)) := by
  have hbound : core < s.slots.size := by
    have := h.holds.cores_eq
    unfold Snapshot.cores at this
    omega
  rw [Array.getElem?_eq_getElem hbound, Option.some.injEq]
  refine Option.ext fun state => ?_
  have hslot := h.holds.mem_iff core state
  rw [Array.getElem?_eq_getElem hbound, Option.some.injEq, h.mem_iff, and_iff_right hcore] at hslot
  exact hslot

theorem records_eq (h : s.Recalls cores acts puts) :
    s.records = (List.range cores).map fun core : Nat =>
      ((recent acts).lookup (core : Int)).getD {} := by
  have hsize : s.slots.size = cores := h.holds.cores_eq
  refine List.ext_getElem (by simp [records, hsize]) fun core hcore _ => ?_
  have hbound : core < s.slots.size := by simpa [records] using hcore
  have hslot := h.slot_eq (hsize ▸ hbound)
  rw [Array.getElem?_eq_getElem hbound, Option.some.injEq] at hslot
  simp [records, hslot]

theorem has_eq (h : s.Recalls cores acts puts) {core : Nat} (hcore : core < cores) :
    s.has core = ((recent acts).lookup (core : Int)).isSome := by
  simp [has, Array.getD_eq_getD_getElem?, h.slot_eq hcore]

/-- The first puts of the cores determine the snapshot. -/
theorem unique (h : s.Recalls cores acts puts) (h' : s'.Recalls cores acts' puts')
    (hsame : ∀ core < cores,
      (recent acts).lookup (core : Int) = (recent acts').lookup (core : Int)) : s = s' := by
  have hslots : s.slots = s'.slots := by
    refine Array.ext_getElem? fun core => ?_
    rcases Nat.lt_or_ge core cores with hcore | hout
    · rw [h.slot_eq hcore, h'.slot_eq hcore, hsame core hcore]
    · have hsize : s.slots.size = cores := h.holds.cores_eq
      have hsize' : s'.slots.size = cores := h'.holds.cores_eq
      rw [Array.getElem?_eq_none (by omega), Array.getElem?_eq_none (by omega)]
  have hseq : s.seq = s'.seq := h.seq_eq.trans h'.seq_eq.symm
  cases s
  cases s'
  simp_all

end Recalls

/-! ## Puts that succeeded -/

/-- A put for the core has succeeded since the last reset. -/
def Filed (s : Snapshot) (acts : List Act) (core : Int) : Prop :=
  ∃ before state later s', acts = before ++ .put core state :: later ∧ .reset ∉ later ∧
    (s.after before).put core state = .ok s'

theorem filed_concat {a : Act} :
    s.Filed (acts ++ [a]) core ↔ (a ≠ .reset ∧ s.Filed acts core) ∨
      ∃ state s', a = .put core state ∧ (s.after acts).put core state = .ok s' := by
  constructor
  · rintro ⟨before, state, later, s', hsplit, hreset, hput⟩
    rcases List.eq_nil_or_concat later with rfl | ⟨later, last, rfl⟩
    · obtain ⟨rfl, hlast⟩ := List.append_inj' hsplit rfl
      exact .inr ⟨state, s', List.singleton_inj.mp hlast, hput⟩
    · rw [List.concat_eq_append] at hsplit hreset
      rw [← List.cons_append, ← List.append_assoc] at hsplit
      obtain ⟨rfl, hlast⟩ := List.append_inj' hsplit rfl
      obtain rfl := List.singleton_inj.mp hlast
      rw [List.mem_append, not_or] at hreset
      exact .inl ⟨fun ha => hreset.2 (by simp [ha]), before, state, later, s', rfl, hreset.1, hput⟩
  · rintro (⟨hne, before, state, later, s', rfl, hreset, hput⟩ | ⟨state, s', rfl, hput⟩)
    · exact ⟨before, state, later ++ [a], s', by simp, by simp [hreset, hne.symm], hput⟩
    · exact ⟨acts, state, [], s', rfl, by simp, hput⟩

/-- The cores that have reported are those for which a put has succeeded. -/
theorem has_after {n : Int} (hcreate : create n = .ok s) (acts : List Act) :
    (s.after acts).has core = true ↔ s.Filed acts core := by
  induction acts using List.reverseRecOn with
  | nil =>
    have hempty : s.has core = false := by
      unfold create at hcreate
      split at hcreate
      · cases hcreate
        simp only [has, Array.getD_eq_getD_getElem?, Array.getElem?_replicate]
        split <;> simp
      · cases hcreate
    simp [after, Filed, hempty]
  | append_singleton acts a ih =>
    rw [after_concat, filed_concat, ← ih]
    cases a with
    | reset => simp [act, has_reset]
    | put other state =>
      cases hput : (s.after acts).put other state with
      | error e =>
        simp only [act, hput, ne_eq, reduceCtorEq, not_false_eq_true, true_and]
        refine (or_iff_left ?_).symm
        rintro ⟨state', s', hsame, hok⟩
        cases hsame
        cases hput.symm.trans hok
      | ok s' =>
        simp only [act, hput, has_put hput, Bool.or_eq_true, beq_iff_eq, ne_eq, reduceCtorEq,
          not_false_eq_true, true_and]
        refine or_congr_right ⟨?_, ?_⟩
        · rintro rfl
          exact ⟨state, s', rfl, hput⟩
        · rintro ⟨state', s'', hsame, -⟩
          cases hsame
          rfl

/-! ## Any order -/

/-- A put fails for a core out of range, or else for a core that has reported, and otherwise it
succeeds. -/
theorem put_cases (s : Snapshot) (core : Int) (state : CoreState) :
    (core < 0 ∨ s.cores ≤ core) ∧ s.put core state = .error (.coreRange core s.cores) ∨
      s.has core = true ∧ s.put core state = .error (.duplicateCore core.toNat) ∨
      (0 ≤ core ∧ core < s.cores) ∧ s.has core = false ∧ ∃ s', s.put core state = .ok s' := by
  unfold put
  by_cases hrange : core < 0 ∨ s.cores ≤ core
  · exact .inl ⟨hrange, if_pos hrange⟩
  · rw [if_neg hrange]
    cases hhas : s.has core with
    | true => exact .inr (.inl ⟨rfl, rfl⟩)
    | false => exact .inr (.inr ⟨by omega, rfl, _, rfl⟩)

theorem put_eq_coreRange_iff :
    s.put core state = .error (.coreRange core s.cores) ↔ core < 0 ∨ s.cores ≤ core := by
  rcases s.put_cases core state with ⟨hout, hput⟩ | ⟨hhas, hput⟩ | ⟨hin, -, s', hput⟩
  · exact iff_of_true hput hout
  · have := core_lt_of_has hhas
    exact iff_of_false (by simp [hput]) (by omega)
  · exact iff_of_false (by simp [hput]) (by omega)

theorem put_eq_duplicateCore_iff :
    s.put core state = .error (.duplicateCore core.toNat) ↔ s.has core = true := by
  rcases s.put_cases core state with ⟨hout, hput⟩ | ⟨hhas, hput⟩ | ⟨-, hfree, s', hput⟩
  · refine iff_of_false (by simp [hput]) fun hhas => ?_
    have := core_lt_of_has hhas
    omega
  · exact iff_of_true hput hhas
  · exact iff_of_false (by simp [hput]) (by simp [hfree])

/-- One put for each of these records, in this order. -/
def arrivals (puts : List (Nat × CoreState)) : List Act := puts.map fun p => .put p.1 p.2

theorem recent_arrivals (puts : List (Nat × CoreState)) :
    recent (arrivals puts) = puts.map fun p => ((p.1 : Int), p.2) := by
  have hall : (arrivals puts).rtakeWhile (· ≠ .reset) = arrivals puts := by
    rw [List.rtakeWhile_eq_self_iff]
    intro a ha
    obtain ⟨p, -, rfl⟩ := List.mem_map.mp ha
    simp
  rw [recent, hall, arrivals, List.filterMap_map]
  simp [Function.comp_def, Act.record?]

theorem lookup_recent_arrivals (puts : List (Nat × CoreState)) (core : Nat) :
    (recent (arrivals puts)).lookup (core : Int) = puts.lookup core := by
  rw [recent_arrivals]
  induction puts with
  | nil => rfl
  | cons p puts ih =>
    have hkey : ((core : Int) == (p.1 : Int)) = (core == p.1) := by
      rw [Bool.eq_iff_iff, beq_iff_eq, beq_iff_eq, Int.natCast_inj]
    rw [List.map_cons, List.lookup_cons, List.lookup_cons, hkey, ih]

/-- Where no core comes twice, the first put of a core is any. -/
theorem lookup_eq_some_of_nodup (hnodup : (puts.map Prod.fst).Nodup) {core : Nat} :
    puts.lookup core = some state ↔ (core, state) ∈ puts := by
  rw [List.lookup_eq_some_iff]
  constructor
  · rintro ⟨before, later, rfl, -⟩
    simp
  · intro hmem
    obtain ⟨before, later, rfl⟩ := List.append_of_mem hmem
    refine ⟨before, later, rfl, fun p hp => ?_⟩
    rw [List.map_append, List.map_cons, List.nodup_append] at hnodup
    have hne := hnodup.2.2 p.1 (List.mem_map_of_mem hp) core (.head _)
    simpa using Ne.symm hne

/-- The same puts in two orders give the same snapshot. -/
theorem after_perm {n : Int} {puts' : List (Nat × CoreState)} (hcreate : create n = .ok s)
    (hnodup : (puts.map Prod.fst).Nodup) (hperm : puts'.Perm puts) :
    s.after (arrivals puts') = s.after (arrivals puts) := by
  obtain ⟨_, h⟩ := exists_recalls hcreate (arrivals puts)
  obtain ⟨_, h'⟩ := exists_recalls hcreate (arrivals puts')
  refine h'.unique h fun core _ => Option.ext fun state => ?_
  have hnodup' : (puts'.map Prod.fst).Nodup := (hperm.map Prod.fst).nodup_iff.mpr hnodup
  rw [lookup_recent_arrivals, lookup_recent_arrivals, lookup_eq_some_of_nodup hnodup,
    lookup_eq_some_of_nodup hnodup', hperm.mem_iff]

/-- What the puts of all cores come to, in whatever order. -/
structure AnyOrder (s : Snapshot) (puts : List (Nat × CoreState)) : Prop where
  complete : (s.after (arrivals puts)).complete = true
  same : ∀ puts', puts'.Perm puts → s.after (arrivals puts') = s.after (arrivals puts)
  /-- Without one of the puts the snapshot is not complete, however often the others come. -/
  all_needed : ∀ fewer, fewer ⊆ puts → (∃ p ∈ puts, p ∉ fewer) →
    (s.after (arrivals fewer)).complete = false

theorem anyOrder {n : Int} (hcreate : create n = .ok s) (hnodup : (puts.map Prod.fst).Nodup)
    (hlt : ∀ p ∈ puts, p.1 < n.toNat) (hlength : puts.length = n.toNat) : s.AnyOrder puts where
  complete := by
    obtain ⟨_, h⟩ := exists_recalls hcreate (arrivals puts)
    rw [complete_iff_all, h.holds.cores_eq]
    intro core hcore
    obtain ⟨state, hstate⟩ := Stream.lookup_of_full hnodup hlt hlength hcore
    rw [h.has_eq hcore, lookup_recent_arrivals, hstate]
    rfl
  same := fun _ hperm => after_perm hcreate hnodup hperm
  all_needed := by
    rintro fewer hsub ⟨p, hp, hmissing⟩
    obtain ⟨_, h⟩ := exists_recalls hcreate (arrivals fewer)
    rw [← Bool.not_eq_true, complete_iff_all, h.holds.cores_eq]
    intro hall
    have hhas := hall p.1 (hlt p hp)
    rw [h.has_eq (hlt p hp), lookup_recent_arrivals, Option.isSome_iff_exists] at hhas
    obtain ⟨state, hstate⟩ := hhas
    obtain ⟨before, later, hsplit, -⟩ := List.lookup_eq_some_iff.mp hstate
    have hmem : (p.1, state) ∈ fewer := by simp [hsplit]
    -- There is only one put for the core, and it is the one that is missing.
    have hfirst := (lookup_eq_some_of_nodup hnodup).mpr (hsub hmem)
    obtain rfl : state = p.2 := by
      have hother : puts.lookup p.1 = some p.2 := (lookup_eq_some_of_nodup hnodup).mpr hp
      exact Option.some.inj (hfirst.symm.trans hother)
    exact hmissing hmem

end Cosim.Snapshot

namespace Cosim.Rollcall

/-! ## The same history, with a word -/

/-- A put that is refused leaves the records and the word as they are. -/
def act (r : Rollcall) : Snapshot.Act → Rollcall
  | .put core state =>
    match r.put core state with
    | .ok r' => r'
    | .error _ => r
  | .reset => r.reset

/-- A row of records and its word after a history. -/
def after (r : Rollcall) (acts : List Snapshot.Act) : Rollcall := acts.foldl act r

namespace Keeps

variable {r : Rollcall} {s : Snapshot}

theorem act (h : r.Keeps s) (a : Snapshot.Act) : (r.act a).Keeps (s.act a) := by
  cases a with
  | reset => exact h.reset
  | put core state =>
    rcases h.put core state with ⟨e, hr, hs⟩ | ⟨r', s', hr, hs, hkeeps⟩
    · simpa only [Rollcall.act, Snapshot.act, hr, hs] using h
    · simpa only [Rollcall.act, Snapshot.act, hr, hs] using hkeeps

theorem after (h : r.Keeps s) (acts : List Snapshot.Act) : (r.after acts).Keeps (s.after acts) := by
  induction acts generalizing r s with
  | nil => exact h
  | cons a acts ih => exact ih (h.act a)

end Keeps

end Cosim.Rollcall

namespace Cosim.Snapshot

/-! ## All of it -/

variable {s : Snapshot}

/-- What a new snapshot of `n` cores holds after a history. -/
structure ByHistory (n : Nat) (s : Snapshot) (acts : List Act) : Prop where
  cores_eq : (s.after acts).cores = n
  has_iff : ∀ core, (s.after acts).has core = true ↔ s.Filed acts core
  records_eq : (s.after acts).records =
    (List.range n).map fun core : Nat => ((recent acts).lookup (core : Int)).getD {}
  range_iff : ∀ core state,
    (s.after acts).put core state = .error (.coreRange core n) ↔ core < 0 ∨ n ≤ core
  duplicate_iff : ∀ core state,
    (s.after acts).put core state = .error (.duplicateCore core.toNat) ↔
      (s.after acts).has core = true
  refused : ∀ core state e, (s.after acts).put core state = .error e →
    (e = .coreRange core n ∨ e = .duplicateCore core.toNat) ∧
      s.after (acts ++ [.put core state]) = s.after acts
  filled_eq : (s.after acts).filled =
    (List.range n).countP fun core : Nat => (s.after acts).has core
  complete_iff : (s.after acts).complete = true ↔
    ∀ core : Nat, core < n → (s.after acts).has core = true
  /-- A reset makes the snapshot as good as new. -/
  reset_eq : (s.after acts).reset = s
  packed : (s.after acts).Packed

theorem byHistory {n : Int} (hhigh : n ≤ maxCores) (hcreate : create n = .ok s) (acts : List Act) :
    s.ByHistory n.toNat acts := by
  obtain ⟨puts, h⟩ := exists_recalls hcreate acts
  have hcores := h.holds.cores_eq
  refine ⟨hcores, fun core => has_after hcreate acts, h.records_eq, ?_, ?_, ?_, ?_, ?_, ?_, ?_⟩
  · intro core state
    rw [← hcores]
    exact put_eq_coreRange_iff
  · intro core state
    exact put_eq_duplicateCore_iff
  · intro core state e hput
    refine ⟨?_, by simp only [after_concat, act, hput]⟩
    rcases h.holds.put_error hput with ⟨he, -⟩ | ⟨he, -⟩
    · exact .inl he
    · exact .inr he
  · rw [filled_eq_countP, hcores]
  · rw [complete_iff_all, hcores]
  · obtain ⟨_, hreset⟩ := exists_recalls hcreate (acts ++ [.reset])
    obtain ⟨_, hnew⟩ := exists_recalls hcreate []
    rw [after_concat] at hreset
    exact hreset.unique hnew fun core _ => by rw [recent_reset]; rfl
  · exact packed (by omega)

/-- A snapshot of up to 64 cores is told by its history since the last reset, in whatever order the
cores report.  A row of records with a bit for each core tells the same. -/
theorem contents_by_history (n : Int) (hlow : 1 ≤ n) (hhigh : n ≤ 64) :
    ∃ s, create n = .ok s ∧ (∀ acts, s.ByHistory n.toNat acts) ∧
      (∀ puts : List (Nat × CoreState), (puts.map Prod.fst).Nodup → (∀ p ∈ puts, p.1 < n.toNat) →
        puts.length = n.toNat → s.AnyOrder puts) ∧
      ∃ r, Rollcall.create n = .ok r ∧ ∀ acts, (r.after acts).Agrees (s.after acts) := by
  obtain ⟨r, s, hcreate', hcreate, hkeeps⟩ := Rollcall.keeps_create hlow hhigh
  exact ⟨s, hcreate, byHistory hhigh hcreate, fun _ => anyOrder hcreate, r, hcreate',
    fun acts => (hkeeps.after acts).agrees⟩

/-- All 64 cores.  The last one reports twice, and two records name cores that there are not; only
the first record counts, and its bit is the top one. -/
theorem contents_by_history_top_core :
    let first : CoreState := { trap := { pc := 1 } }
    let second : CoreState := { trap := { pc := 2 } }
    let acts : List Act := [.reset, .put 63 first, .put 63 second, .put 64 second, .put (-1) second]
    ∃ s r, create 64 = .ok s ∧ s.ByHistory 64 acts ∧ (s.after acts).records.getLast? = some first ∧
      (s.after acts).presence = BitVec.twoPow maxCores 63 ∧ (s.after acts).filled = 1 ∧
      (s.after acts).put 63 first = .error (.duplicateCore 63) ∧
      s.AnyOrder ((List.range 64).map fun core => (core, first)) ∧
      Rollcall.create 64 = .ok r ∧ (r.after acts).present = BitVec.twoPow maxCores 63 ∧
      (r.after acts).put 63 first = .error (.duplicateCore 63) := by
  intro first second acts
  obtain ⟨s, hcreate, hhistory, horder, r, hcreate', hagrees⟩ :=
    contents_by_history 64 (by decide) (by decide)
  have h := hhistory acts
  have hhas : (s.after acts).has 63 = true := by
    rw [← Except.ok.inj hcreate]
    rfl
  have hpresence : (s.after acts).presence = BitVec.twoPow maxCores 63 := by
    rw [← Except.ok.inj hcreate]
    decide +kernel
  have hrefused := (h.duplicate_iff 63 first).mpr hhas
  refine ⟨s, r, hcreate, h, ?_, hpresence, ?_, hrefused, ?_, hcreate', ?_, ?_⟩
  · rw [h.records_eq]
    rfl
  · rw [← Except.ok.inj hcreate]
    decide +kernel
  · exact horder _ (by decide) (by decide) (by decide)
  · rw [(hagrees acts).keeps.present_eq, hpresence]
  · exact ((hagrees acts).refused_iff 63 first _).mpr hrefused

end Cosim.Snapshot
