import Cosim.Proofs.Loading
import Mathlib.Logic.Function.Basic

/-!
# Comparing with a golden trace

Comparisons come in any order of the cores.  Each is made with the next golden record of its core,
and nothing that is done for one core makes a difference for another.

* `GoldenLane.compare` is a comparison within one lane, and `Golden.compare_eq` says that a trace
  compares with the lane of the core.
* `GoldenLane.At` says where a lane stands, and `GoldenLane.At.compare` that a comparison moves it
  on.
* `GoldenLane.standing` is a lane after so many comparisons: where it stands does not depend on
  what they came to.  `GoldenLane.compare_standing` is one comparison more.
* `Golden.standing` is a trace by the number of comparisons of each core, and
  `Golden.after_standing` says that calls in any order only add to these numbers.
* `Golden.ComparesAlone` collects what follows for the calls on a loaded trace, and
  `Golden.compares_each_core_alone` is the main statement.
-/

namespace Cosim

/-! ## One lane -/

/-- What is noted when the records of a core are used up. -/
def Golden.exhaustion (core : Int) : Entry where
  level := .warning
  message := s!"refproxy: golden trace for core {core} exhausted, comparison stopped"

/-- A comparison with the next record of a lane. -/
def GoldenLane.compare (l : GoldenLane) (core : Nat) (got : CoreState) :
    GoldenLane × Bool × Journal :=
  match l.records[l.next]? with
  | none =>
    ({ l with exhausted := true }, true, if l.exhausted then [] else [Golden.exhaustion core])
  | some want =>
    ({ l with next := l.next + 1 }, Golden.agrees want got,
      if Golden.agrees want got then [] else Golden.explain core want got)

namespace Golden

variable {g : Golden} {core : Nat}

/-- A trace compares with the lane of the core. -/
theorem compare_eq (hheld : g.released = false) (hcore : core < g.lanes.size) (got : CoreState) :
    g.compare core got =
      .ok ({ g with lanes := g.lanes.set! core ((g.lanes.getD core {}).compare core got).1 },
        ((g.lanes.getD core {}).compare core got).2) := by
  simp only [compare, GoldenLane.compare, Fault.checkIndex_of_lt hcore, lane_eq hheld hcore, bind,
    Except.bind, pure, Except.pure]
  cases (g.lanes.getD core {}).records[(g.lanes.getD core {}).next]? with
  | none => rfl
  | some want =>
    dsimp only
    by_cases hagrees : agrees want got = true
    · rw [if_pos hagrees, if_pos hagrees, hagrees]
    · rw [if_neg hagrees, if_neg hagrees, Bool.eq_false_iff.mpr hagrees]

/-- A core out of range has no lane. -/
theorem compare_out_of_range {core : Int} (hout : ¬ (0 ≤ core ∧ core < g.lanes.size))
    (got : CoreState) : g.compare core got = .error (.index core g.lanes.size) := by
  simp only [compare, Fault.checkIndex, if_neg hout, bind, Except.bind]

/-- The answer of comparison number `k` with these records. -/
def agreesAt (records : List CoreState) (k : Nat) (got : CoreState) : Bool :=
  match records[k]? with
  | none => true
  | some want => agrees want got

/-- What comparison number `k` notes. -/
def notesAt (core : Nat) (records : List CoreState) (k : Nat) (got : CoreState) : Journal :=
  match records[k]? with
  | none => if k = records.length then [exhaustion core] else []
  | some want => if agrees want got then [] else explain core want got

end Golden

namespace GoldenLane

variable {l : GoldenLane} {k : Nat} {records : List CoreState}

/-- The lane holds these records, and `k` of them, or all, have been compared. -/
structure At (l : GoldenLane) (records : List CoreState) (k : Nat) : Prop where
  records_eq : l.records.toList = records
  next_eq : l.next = min k records.length

theorem At.record_eq (hlane : l.At records k) : l.records[l.next]? = records[k]? := by
  rw [← Array.getElem?_toList, hlane.records_eq, hlane.next_eq]
  rcases Nat.lt_or_ge k records.length with hlt | hge
  · rw [Nat.min_eq_left (by omega)]
  · rw [Nat.min_eq_right hge, List.getElem?_eq_none (Nat.le_refl _), List.getElem?_eq_none hge]

/-- A comparison moves a lane on by one record, if there is one, and answers for that record. -/
theorem At.compare (hlane : l.At records k) (core : Nat) (got : CoreState) :
    (l.compare core got).1.At records (k + 1) ∧
      (l.compare core got).2.1 = Golden.agreesAt records k got := by
  have hnext := hlane.next_eq
  simp only [GoldenLane.compare, hlane.record_eq, Golden.agreesAt]
  cases hwant : records[k]? with
  | none =>
    have hend := List.getElem?_eq_none_iff.mp hwant
    exact ⟨⟨hlane.records_eq, by dsimp only; omega⟩, rfl⟩
  | some want =>
    have hlt := (List.getElem?_eq_some_iff.mp hwant).1
    exact ⟨⟨hlane.records_eq, by dsimp only; omega⟩, rfl⟩

/-- The lane of these records after `k` comparisons. -/
def standing (records : List CoreState) (k : Nat) : GoldenLane where
  records := records.toArray
  next := min k records.length
  exhausted := decide (records.length < k)

theorem at_standing (records : List CoreState) (k : Nat) : (standing records k).At records k :=
  ⟨rfl, rfl⟩

/-- One comparison more, whatever it comes to. -/
theorem compare_standing (records : List CoreState) (k core : Nat) (got : CoreState) :
    (standing records k).compare core got =
      (standing records (k + 1), Golden.agreesAt records k got,
        Golden.notesAt core records k got) := by
  simp only [compare, (at_standing records k).record_eq, Golden.agreesAt, Golden.notesAt]
  cases hwant : records[k]? with
  | none =>
    have hend := List.getElem?_eq_none_iff.mp hwant
    have hnext : min (k + 1) records.length = min k records.length := by omega
    have hlatch : decide (records.length < k + 1) = true := decide_eq_true (by omega)
    simp only [standing, hnext, hlatch, Prod.mk.injEq, true_and]
    by_cases hfirst : k = records.length
    · simp [hfirst]
    · have hlater : records.length < k := by omega
      simp [hfirst, hlater]
  | some want =>
    have hlt := (List.getElem?_eq_some_iff.mp hwant).1
    have hnext : min (k + 1) records.length = min k records.length + 1 := by omega
    have hlatch : decide (records.length < k + 1) = decide (records.length < k) := by
      simp only [decide_eq_decide]
      omega
    simp only [standing, hnext, hlatch]

end GoldenLane

/-! ## All lanes -/

namespace Golden

/-- A call asks to compare the state of a core. -/
abbrev Call := Int × CoreState

/-- What a call answers, and what it notes. -/
abbrev Answer := Except Fault (Bool × Journal)

/-- The calls on one core. -/
def callsOf (core : Int) (calls : List Call) : List Call := calls.filter (·.1 == core)

/-- The trace after a call; a call that faults changes nothing. -/
def call (g : Golden) (c : Call) : Golden :=
  match g.compare c.1 c.2 with
  | .ok (g', _) => g'
  | .error _ => g

/-- The trace after some calls. -/
def after (g : Golden) (calls : List Call) : Golden := calls.foldl call g

/-- The answers of some calls, each with the core it is about. -/
def answers (g : Golden) : List Call → List (Int × Answer)
  | [] => []
  | c :: rest => (c.1, (g.compare c.1 c.2).map Prod.snd) :: (g.call c).answers rest

/-- The trace of these records after so many comparisons of each core. -/
def standing (cores : Nat) (records : Nat → List CoreState) (counts : Int → Nat) : Golden where
  lanes := (Array.range cores).map fun core => GoldenLane.standing (records core) (counts core)

/-- The answer of call number `k` on a core. -/
def answerOf (cores : Nat) (records : Nat → List CoreState) (core : Int) (k : Nat)
    (got : CoreState) : Answer :=
  if 0 ≤ core ∧ core < cores then
    .ok (agreesAt (records core.toNat) k got, notesAt core.toNat (records core.toNat) k got)
  else .error (.index core cores)

variable {cores : Nat} {records : Nat → List CoreState} {counts : Int → Nat}

@[simp] theorem size_standing (cores : Nat) (records : Nat → List CoreState) (counts : Int → Nat) :
    (standing cores records counts).lanes.size = cores := by
  simp [standing]

theorem getElem?_standing (core : Nat) :
    (standing cores records counts).lanes[core]? =
      if core < cores then some (GoldenLane.standing (records core) (counts core)) else none := by
  by_cases hcore : core < cores
  · simp [standing, hcore]
  · simp [standing, hcore]

theorem lane_standing {core : Nat} (hcore : core < cores) :
    (standing cores records counts).lanes.getD core {} =
      GoldenLane.standing (records core) (counts core) := by
  rw [Array.getD_eq_getD_getElem?, getElem?_standing, if_pos hcore, Option.getD_some]

/-- A comparison is counted for its core. -/
theorem compare_standing {core : Nat} (hcore : core < cores) (got : CoreState) :
    (standing cores records counts).compare core got =
      .ok (standing cores records (Function.update counts core (counts core + 1)),
        agreesAt (records core) (counts core) got,
        notesAt core (records core) (counts core) got) := by
  have hlanes : (standing cores records counts).lanes.set! core
      (GoldenLane.standing (records core) (counts core + 1)) =
        (standing cores records (Function.update counts core (counts core + 1))).lanes := by
    refine Array.ext_getElem? fun other => ?_
    rw [Array.set!_eq_setIfInBounds, Array.getElem?_setIfInBounds, getElem?_standing,
      getElem?_standing]
    by_cases hsame : core = other
    · subst hsame
      simp [hcore]
    · have hne : (other : Int) ≠ core := by omega
      rw [if_neg hsame, Function.update_of_ne hne]
  rw [compare_eq rfl (by simpa using hcore), lane_standing hcore, GoldenLane.compare_standing,
    hlanes]
  rfl

theorem answer_standing (core : Int) (got : CoreState) :
    ((standing cores records counts).compare core got).map Prod.snd =
      answerOf cores records core (counts core) got := by
  unfold answerOf
  by_cases hcore : 0 ≤ core ∧ core < cores
  · obtain ⟨c, rfl⟩ := Int.eq_ofNat_of_zero_le hcore.1
    rw [if_pos hcore, compare_standing (by omega)]
    rfl
  · rw [if_neg hcore, compare_out_of_range (by simpa using hcore), size_standing]
    rfl

/-- Counts of cores that there are not make no difference. -/
theorem call_standing (core : Int) (got : CoreState) :
    (standing cores records counts).call (core, got) =
      standing cores records (Function.update counts core (counts core + 1)) := by
  unfold call
  by_cases hcore : 0 ≤ core ∧ core < cores
  · obtain ⟨c, rfl⟩ := Int.eq_ofNat_of_zero_le hcore.1
    rw [compare_standing (by omega)]
  · rw [compare_out_of_range (by simpa using hcore)]
    simp only [standing, mk.injEq, and_true]
    refine Array.map_congr_left fun c hc => ?_
    have hne : (c : Int) ≠ core := by
      rintro rfl
      simp at hc
      omega
    rw [Function.update_of_ne hne]

theorem length_callsOf_cons (core : Int) (c : Call) (calls : List Call) :
    (callsOf core (c :: calls)).length =
      (if c.1 = core then 1 else 0) + (callsOf core calls).length := by
  by_cases hsame : c.1 = core
  · simp [callsOf, hsame, Nat.add_comm]
  · simp [callsOf, hsame]

/-- The calls only add to the counts of their cores. -/
theorem after_standing (calls : List Call) (counts : Int → Nat) :
    (standing cores records counts).after calls =
      standing cores records fun core => counts core + (callsOf core calls).length := by
  induction calls generalizing counts with
  | nil => rfl
  | cons c calls ih =>
    have hcounts : (fun core => Function.update counts c.1 (counts c.1 + 1) core +
        (callsOf core calls).length) =
          fun core => counts core + (callsOf core (c :: calls)).length := by
      funext core
      rw [length_callsOf_cons]
      by_cases hsame : core = c.1
      · subst hsame
        rw [Function.update_self, if_pos rfl]
        omega
      · rw [Function.update_of_ne hsame, if_neg (Ne.symm hsame)]
        omega
    rw [← hcounts, ← ih, ← call_standing c.1 c.2]
    rfl

/-- The answers of the calls on one core, from call number `k` on. -/
def answersOf (cores : Nat) (records : Nat → List CoreState) (core : Int) :
    Nat → List Call → List (Int × Answer)
  | _, [] => []
  | k, c :: rest =>
    (core, answerOf cores records core k c.2) :: answersOf cores records core (k + 1) rest

/-- What is answered for a core depends on the calls for that core alone. -/
theorem answers_standing (core : Int) (calls : List Call) (counts : Int → Nat) :
    ((standing cores records counts).answers calls).filter (·.1 == core) =
      answersOf cores records core (counts core) (callsOf core calls) := by
  induction calls generalizing counts with
  | nil => rfl
  | cons c calls ih =>
    have hnext := ih (Function.update counts c.1 (counts c.1 + 1))
    rw [← call_standing c.1 c.2] at hnext
    by_cases hsame : c.1 = core
    · subst hsame
      rw [Function.update_self] at hnext
      simp only [answers, callsOf, List.filter_cons, beq_self_eq_true, if_true, answersOf,
        answer_standing] at hnext ⊢
      rw [hnext]
    · rw [Function.update_of_ne (Ne.symm hsame)] at hnext
      simp only [answers, callsOf, List.filter_cons, beq_false_of_ne hsame, Bool.false_eq_true,
        if_false] at hnext ⊢
      rw [hnext]

/-! ## What is noted -/

/-- Numbers are told apart by their texts. -/
theorem repr_inj {n m : Nat} (hsame : n.repr = m.repr) : n = m := by
  have hdigits : Nat.toDigits 10 n = Nat.toDigits 10 m := by
    rw [← Nat.toList_repr, ← Nat.toList_repr, hsame]
  calc n = Nat.ofDigitChars 10 (Nat.toDigits 10 n) 0 := Nat.ofDigitChars_ten_toDigits.symm
    _ = Nat.ofDigitChars 10 (Nat.toDigits 10 m) 0 := by rw [hdigits]
    _ = m := Nat.ofDigitChars_ten_toDigits

/-- The notes of two cores are told apart by the number that they name. -/
theorem exhaustion_inj {core other : Nat} (hsame : exhaustion core = exhaustion other) :
    core = other := by
  have hmessage := congrArg Entry.message hsame
  simp only [exhaustion] at hmessage
  rw [String.append_left_inj, String.append_right_inj] at hmessage
  exact repr_inj hmessage

/-- A difference is explained by errors. -/
theorem level_of_mem_explain {core : Nat} {want got : CoreState} {e : Entry}
    (he : e ∈ explain core want got) : e.level = .error := by
  rw [explain, List.mem_append, List.mem_filterMap] at he
  rcases he with ⟨i, -, hi⟩ | hpc
  · dsimp only at hi
    split at hi
    · cases hi
    · rw [← Option.some.inj hi]
      rfl
  · split at hpc
    · cases hpc
    · rw [List.mem_singleton.mp hpc]
      rfl

/-- The end of the records is noted by the first comparison past it, once. -/
theorem warnings_notesAt (core : Nat) (records : List CoreState) (k : Nat) (got : CoreState) :
    (notesAt core records k got).filter (·.level == .warning) =
      if k = records.length then [exhaustion core] else [] := by
  unfold notesAt
  cases hwant : records[k]? with
  | none =>
    dsimp only
    by_cases hfirst : k = records.length
    · rw [if_pos hfirst]
      rfl
    · rw [if_neg hfirst]
      rfl
  | some want =>
    have hlt := (List.getElem?_eq_some_iff.mp hwant).1
    have hbefore : k ≠ records.length := by omega
    rw [if_neg hbefore, List.filter_eq_nil_iff]
    intro e he
    dsimp only at he
    split at he
    · cases he
    · rw [level_of_mem_explain he]
      decide

theorem agreesAt_iff {records : List CoreState} {k : Nat} {got : CoreState} :
    agreesAt records k got = true ↔ records.length ≤ k ∨ ∃ want, records[k]? = some want ∧
      want.commit = got.commit ∧ want.regs = got.regs ∧ want.trap.pc = got.trap.pc := by
  unfold agreesAt
  cases hwant : records[k]? with
  | none => simp [List.getElem?_eq_none_iff.mp hwant]
  | some want =>
    have hlt := (List.getElem?_eq_some_iff.mp hwant).1
    simp [agrees, Nat.not_le_of_lt hlt]

/-! ## All of it -/

/-- What a call does that compares a core with its golden records, after `k` such calls. -/
structure Compared (records : List CoreState) (core k : Nat) (got : CoreState) (g g' : Golden)
    (same : Bool) (notes : Journal) : Prop where
  same_iff : same = true ↔ records.length ≤ k ∨ ∃ want, records[k]? = some want ∧
    want.commit = got.commit ∧ want.regs = got.regs ∧ want.trap.pc = got.trap.pc
  cursor_eq : (g.lanes.getD core {}).next = min k records.length
  cursor_next : (g'.lanes.getD core {}).next = min (k + 1) records.length
  remaining_eq : g.remaining core = .ok (records.length - k)
  records_kept : (g'.lanes.getD core {}).records.toList = records
  others_kept : ∀ other, other ≠ core → g'.lanes[other]? = g.lanes[other]?
  warnings_eq : notes.filter (·.level == .warning) =
    if k = records.length then [exhaustion core] else []
  /-- The trap, its code and the counters of the state are not looked at. -/
  unseen : ∀ hasTrap code cycles instrs,
    g.compare core { got with trap := { got.trap with hasTrap, code, cycles, instrs } } =
      g.compare core got

/-- What follows for any calls on a trace of these records. -/
structure ComparesAlone (g : Golden) (cores : Nat) (records : Nat → List CoreState) : Prop where
  compared : ∀ (before : List Call) (core : Nat) (got : CoreState), core < cores →
    ∃ g' same notes, (g.after before).compare core got = .ok (g', same, notes) ∧
      Compared (records core) core (callsOf core before).length got (g.after before) g' same notes
  out_of_range : ∀ (before : List Call) (core : Int) (got : CoreState),
    ¬ (0 ≤ core ∧ core < cores) → (g.after before).compare core got = .error (.index core cores)
  /-- A warning tells for which core it is. -/
  named : ∀ core other : Nat, exhaustion core = exhaustion other → core = other
  /-- Calls may be taken in another order, as long as those of each core stay in theirs. -/
  reordered : ∀ calls calls' : List Call, (∀ core, callsOf core calls = callsOf core calls') →
    g.after calls = g.after calls' ∧ ∀ core : Int,
      (g.answers calls).filter (·.1 == core) = (g.answers calls').filter (·.1 == core)

theorem compared_standing (records : Nat → List CoreState) (counts : Int → Nat) {core : Nat}
    (hcore : core < cores) (got : CoreState) :
    Compared (records core) core (counts core) got (standing cores records counts)
      (standing cores records (Function.update counts core (counts core + 1)))
      (agreesAt (records core) (counts core) got)
      (notesAt core (records core) (counts core) got) where
  same_iff := agreesAt_iff
  cursor_eq := by
    rw [lane_standing hcore]
    rfl
  cursor_next := by
    rw [lane_standing hcore, Function.update_self]
    rfl
  remaining_eq := by
    rw [Golden.remaining_eq rfl (by simpa using hcore), lane_standing hcore]
    simp only [GoldenLane.remaining, GoldenLane.standing, List.size_toArray, Except.ok.injEq]
    omega
  records_kept := by
    rw [lane_standing hcore]
    rfl
  others_kept := by
    intro other hother
    have hne : (other : Int) ≠ core := by omega
    rw [getElem?_standing, getElem?_standing, Function.update_of_ne hne]
  warnings_eq := warnings_notesAt core (records core) (counts core) got
  unseen := by
    intro hasTrap code cycles instrs
    rw [compare_standing hcore, compare_standing hcore]
    rfl

theorem standing_of_loaded {g : Golden} {bytes : List UInt8} (h : g.Loaded cores bytes) :
    g = standing cores (fun core => Stream.history core (Stream.records bytes)) fun _ => 0 := by
  have hlanes : g.lanes = (standing cores
      (fun core => Stream.history core (Stream.records bytes)) fun _ => 0).lanes := by
    refine Array.ext_getElem? fun core => ?_
    rw [getElem?_standing]
    by_cases hcore : core < cores
    · rw [if_pos hcore, h.lane_eq core hcore]
      simp [GoldenLane.standing]
    · rw [if_neg hcore, Array.getElem?_eq_none (by rw [h.size_eq]; omega)]
  cases g
  simp only [standing, mk.injEq]
  exact ⟨hlanes, h.held⟩

theorem comparesAlone_standing (cores : Nat) (records : Nat → List CoreState) :
    (standing cores records fun _ => 0).ComparesAlone cores records where
  compared := by
    intro before core got hcore
    have hafter : (standing cores records fun _ => 0).after before =
        standing cores records fun c => (callsOf c before).length := by
      rw [after_standing]
      simp only [Nat.zero_add]
    rw [hafter, compare_standing hcore]
    exact ⟨_, _, _, rfl, compared_standing records (fun c => (callsOf c before).length) hcore got⟩
  out_of_range := by
    intro before core got hout
    rw [after_standing, compare_out_of_range (by simpa using hout), size_standing]
  named := fun _ _ => exhaustion_inj
  reordered := by
    intro calls calls' hsame
    constructor
    · rw [after_standing, after_standing]
      simp only [hsame]
    · intro core
      rw [answers_standing, answers_standing, hsame]

/-- On every loaded trace, whatever calls are made: each core is compared with its own records, one
after the other, and the calls on other cores make no difference. -/
theorem compares_each_core_alone (cores : Int) (bytes : List UInt8) (g : Golden)
    (hload : load cores bytes = .ok (.ok g)) :
    g.ComparesAlone cores.toNat fun core => Stream.history core (Stream.records bytes) := by
  have hstanding := standing_of_loaded (loaded_of_load hload)
  rw [hstanding]
  exact comparesAlone_standing _ _

/-- Two cores with one record each.  Core 0 differs from its record, and its next comparison is past
the end; where core 1 is compared in between makes no difference. -/
theorem compares_each_core_alone_past_end :
    let want : CoreState := { trap := { pc := 4 } }
    let other : CoreState := { trap := { pc := 8 } }
    ∃ g, load 2 (Stream.written [(1, want), (0, want)]) = .ok (.ok g) ∧
      (∃ g' notes, (g.after [(1, want)]).compare 0 other = .ok (g', false, notes)) ∧
      (∃ g' notes, (g.after [(1, want), (0, other)]).compare 0 other = .ok (g', true, notes) ∧
        notes.filter (·.level == .warning) = [exhaustion 0]) ∧
      g.after [(1, want), (0, other)] = g.after [(0, other), (1, want)] := by
  intro want other
  have hcores : (0 : Int) ≤ 2 := by decide
  obtain ⟨g, hg⟩ := (loadFrom_answers hcores (Stream.written [(1, want), (0, want)])).ok_iff.mpr
    ⟨Stream.whole_written _, by simp [Stream.records_written]⟩
  have hload : load 2 (Stream.written [(1, want), (0, want)]) = .ok (.ok g) := by
    rw [load_eq hcores, if_pos (by decide), hg]
  have halone := compares_each_core_alone 2 _ g hload
  have hrecords : Stream.history 0 (Stream.records (Stream.written [(1, want), (0, want)])) =
      [want] := by
    rw [Stream.history_written]
    rfl
  refine ⟨g, hload, ?_, ?_, (halone.reordered _ _ fun core => ?_).1⟩
  · obtain ⟨g', same, notes, hcompare, hdone⟩ := halone.compared [(1, want)] 0 other (by decide)
    have hsame : same = false := by
      rw [Bool.eq_false_iff, Ne, hdone.same_iff, hrecords]
      decide
    exact ⟨g', notes, hsame ▸ hcompare⟩
  · obtain ⟨g', same, notes, hcompare, hdone⟩ :=
      halone.compared [(1, want), (0, other)] 0 other (by decide)
    have hsame : same = true := by
      rw [hdone.same_iff, hrecords]
      exact .inl (by decide)
    refine ⟨g', notes, hsame ▸ hcompare, ?_⟩
    rw [hdone.warnings_eq, hrecords]
    rfl
  · by_cases hzero : core = 0
    · subst hzero
      rfl
    · have hskip : ((0 : Int) == core) = false := beq_false_of_ne (Ne.symm hzero)
      simp only [callsOf, List.filter_cons, List.filter_nil, hskip, Bool.false_eq_true, if_false]

end Golden

end Cosim
