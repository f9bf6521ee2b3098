import Cosim.Proofs.Refinement

/-!
# The checker over whole runs

A checker and the exchange that it takes its snapshots from.  Between two steps of the checker
the other party may do anything: claim and fill the snapshot, publish it, seal the exchange.

* `Checker.After` says what a checker has made of a sequence of blocks: the states of the last
  one, the instructions committed in all of them, and one comparison with each.
  `Checker.After.accept` adds a block.
* `Handover.Inv.step_pending` and `Handover.step_nothing` say what one step of the checker finds.
* `Checking.Checked` collects what holds after any number of steps, `k` of which succeeded;
  `Checking.checked_of_reach` is the main statement.
-/

namespace Cosim

/-! ## What a checker makes of a sequence of blocks -/

/-- The instructions that a core committed in these states, those without a valid commit apart. -/
def Checker.committed (states : List CoreState) : Nat :=
  (states.filter (·.commit.valid)).foldl (fun n s => n + s.commit.count.toNat) 0

/-- The checker has taken in these blocks, one after the other. -/
structure Checker.After (c : Checker) (cores : Nat) (golden : Nat → List CoreState)
    (blocks : List (List CoreState)) : Prop where
  compared : c.At golden blocks.length (blocks.getLast?.getD (List.replicate cores {}))
  cores_size : c.cores.size = cores
  commits_size : c.commits.size = cores
  commits_eq : ∀ core < cores,
    c.commits.getD core 0 = .ofNat (committed (blocks.map fun states => states.getD core {}))

namespace Checker

variable {c : Checker} {cores : Nat} {golden : Nat → List CoreState}
  {blocks : List (List CoreState)}

/-- Counting in words is counting modulo the size of a word. -/
theorem countCommits_ofNat (states : List CoreState) (s : CoreState) :
    countCommits (.ofNat (committed states)) s = .ofNat (committed (states ++ [s])) := by
  unfold countCommits committed
  rw [List.filter_append]
  cases hvalid : s.commit.valid with
  | false => simp [hvalid]
  | true => simp [hvalid, List.foldl_append, UInt64.ofNat_add]

theorem create_eq_ok {cores : Int} {golden : Option Golden}
    (hcreate : create cores golden = .ok c) :
    c = { golden
          cores := Array.replicate cores.toNat {}
          commits := Array.replicate cores.toNat 0 } := by
  unfold create at hcreate
  by_cases hcores : cores < 1
  · simp [hcores, bind, Except.bind, throw, throwThe, MonadExceptOf.throw] at hcreate
  · rw [if_neg hcores] at hcreate
    obtain ⟨_, -, hreturn⟩ := bind_eq_ok hcreate
    exact (Except.ok.inj hreturn).symm

theorem commits_accept (c : Checker) (s : Snapshot) :
    (c.accept s).1.commits = (c.commits.zip (adopt c.cores s.records)).map fun (n, s) =>
      countCommits n s := by
  unfold accept
  cases c.golden <;> rfl

theorem golden_accept (c : Checker) (s : Snapshot) :
    (c.accept s).1.golden.isSome = c.golden.isSome := by
  unfold accept
  cases c.golden <;> rfl

/-- A checker takes in one more block: it has its states, has counted its commits and has compared
every core once. -/
theorem After.accept (hc : c.After cores golden blocks) {s : Snapshot}
    (hcores : s.records.length = cores) :
    (c.accept s).1.After cores golden (blocks ++ [s.records]) ∧
      (c.accept s).2.1 = Verdict.mismatch golden blocks.length 0 s.records := by
  have hlast := congrArg List.length hc.compared.cores_eq
  rw [Array.length_toList, hc.cores_size] at hlast
  obtain ⟨hat, hflag⟩ := hc.compared.accept (hcores.trans hlast)
  have hadopt : adopt c.cores s.records = s.records.toArray :=
    adopt_eq (hcores.trans hc.cores_size.symm)
  refine ⟨⟨?_, ?_, ?_, ?_⟩, hflag⟩
  · simpa using hat
  · have hsize := congrArg List.length hat.cores_eq
    rwa [Array.length_toList, hcores] at hsize
  · rw [commits_accept, hadopt]
    simp [hc.commits_size, hcores]
  · intro core hcore
    have hzip : (c.commits.zip s.records.toArray)[core]? =
        some (c.commits.getD core 0, s.records.getD core {}) := by
      refine Array.getElem?_zip_eq_some.mpr ⟨?_, ?_⟩
      · simp [Array.getD_eq_getD_getElem?, hc.commits_size, hcore]
      · simp [List.getD_eq_getElem?_getD, hcores, hcore]
    have hnew : (c.accept s).1.commits.getD core 0 =
        countCommits (c.commits.getD core 0) (s.records.getD core {}) := by
      rw [commits_accept, hadopt, Array.getD_eq_getD_getElem?, Array.getElem?_map, hzip]
      rfl
    rw [hnew, hc.commits_eq core hcore, countCommits_ofNat, List.map_append, List.map_singleton]

end Checker

namespace Snapshot

theorem length_records (s : Snapshot) : s.records.length = s.cores := by
  simp [records, cores]

theorem getElem?_records {s : Snapshot} {core : Nat} (hcore : core < s.cores) :
    s.records[core]? = some (s.record core) := by
  have hsize : core < s.slots.size := hcore
  simp [records, record, Array.getD_eq_getD_getElem?, hsize]

theorem getD_records {s : Snapshot} {core : Nat} (hcore : core < s.cores) :
    s.records.getD core {} = s.record core := by
  rw [List.getD_eq_getElem?_getD, getElem?_records hcore, Option.getD_some]

end Snapshot

/-- The checker answers from this snapshot. -/
structure Checker.Shows (c : Checker) (snapshot : Snapshot) : Prop where
  event_eq : ∀ core : Nat, core < snapshot.cores → c.event core = .ok (snapshot.record core).trap
  /-- The first core that has trapped decides. -/
  trapped : ∀ core < snapshot.cores, (snapshot.record core).trap.hasTrap = true →
    (∀ other < core, (snapshot.record other).trap.hasTrap = false) →
    c.trapState = (snapshot.record core).trap.code.toNat
  running : (∀ core < snapshot.cores, (snapshot.record core).trap.hasTrap = false) →
    c.trapState = -1

theorem Checker.shows_of_cores {c : Checker} {snapshot : Snapshot}
    (hcores : c.cores.toList = snapshot.records) : c.Shows snapshot := by
  have hsize : c.cores.size = snapshot.cores := by
    rw [← snapshot.length_records, ← hcores, Array.length_toList]
  refine ⟨?_, ?_, ?_⟩
  · intro core hcore
    have hindex : Fault.checkIndex core c.cores.size = .ok core :=
      Fault.checkIndex_of_lt (by omega)
    have hget : c.cores.getD core {} = snapshot.record core := by
      rw [Array.getD_eq_getD_getElem?, ← Array.getElem?_toList, hcores,
        Snapshot.getElem?_records hcore, Option.getD_some]
    simp only [event, hindex, hget, bind, Except.bind, pure, Except.pure]
  · intro core hcore htrap hfirst
    have hrecord := List.getElem?_eq_some_iff.mp (Snapshot.getElem?_records hcore)
    have hfind : c.cores.toList.find? (·.trap.hasTrap) = some (snapshot.record core) := by
      rw [hcores, List.find?_eq_some_iff_getElem]
      refine ⟨htrap, core, hrecord.1, hrecord.2, ?_⟩
      intro other hother
      have hbefore := List.getElem?_eq_some_iff.mp
        (Snapshot.getElem?_records (s := snapshot) (show other < snapshot.cores by omega))
      rw [hbefore.2, hfirst other hother]
      rfl
    simp only [trapState, hfind]
  · intro hnone
    have hfind : c.cores.toList.find? (·.trap.hasTrap) = none := by
      rw [hcores, List.find?_eq_none]
      intro state hstate
      obtain ⟨core, hcore, rfl⟩ := List.mem_iff_getElem.mp hstate
      rw [snapshot.length_records] at hcore
      have hrecord := List.getElem?_eq_some_iff.mp (Snapshot.getElem?_records hcore)
      rw [hrecord.2, hnone core hcore]
      decide
    simp only [trapState, hfind]

namespace Verdict

variable {golden : Nat → List CoreState} {k core : Nat} {states : List CoreState}

theorem differs_iff {records : List CoreState} {got : CoreState} :
    differs records k got = true ↔ ∃ want, records[k]? = some want ∧
      (want.commit ≠ got.commit ∨ want.regs ≠ got.regs ∨ want.trap.pc ≠ got.trap.pc) := by
  unfold differs
  cases records[k]? with
  | none => simp
  | some want => simp

/-- There is a mismatch exactly if some core differs, whatever the cores before it do. -/
theorem mismatch_iff :
    mismatch golden k core states = true ↔
      ∃ i s, states[i]? = some s ∧ differs (golden (core + i)) k s = true := by
  induction states generalizing core with
  | nil => simp [mismatch]
  | cons s rest ih =>
    rw [mismatch, Bool.or_eq_true, ih]
    constructor
    · rintro (hfirst | ⟨i, s', hs', hdiffers⟩)
      · exact ⟨0, s, rfl, hfirst⟩
      · refine ⟨i + 1, s', hs', ?_⟩
        rwa [show core + (i + 1) = core + 1 + i by omega]
    · rintro ⟨i, s', hs', hdiffers⟩
      cases i with
      | zero =>
        obtain rfl : s = s' := Option.some.inj hs'
        exact .inl hdiffers
      | succ i =>
        refine .inr ⟨i, s', hs', ?_⟩
        rwa [show core + 1 + i = core + (i + 1) by omega]

end Verdict

/-! ## One step of the checker -/

/-- The exchange after its snapshot has been taken, emptied and given back. -/
def Exchange.turnedOver (x : Exchange) : Exchange :=
  { { x with full := none }.reset 0 with empty := some 0 }

namespace Handover

variable {cores : Nat} {h : Handover} {s : Snapshot}

/-- What a call of take would return now, if it did not wait. -/
def seen (h : Handover) : List (Except Error Snapshot) :=
  h.exchange.take.toList.map fun (result, x) => result.map x.snapshot

/-- The snapshot that waits to be taken has all its cores. -/
theorem Inv.pending_eq (inv : h.Inv cores) (hpending : h.pending = some s) :
    h.exchange.full = some 0 ∧ h.exchange.snapshot 0 = s ∧ s.cores = cores ∧
      s.complete = true := by
  unfold pending at hpending
  cases hfull : h.exchange.full with
  | none => simp [hfull] at hpending
  | some t =>
    obtain ⟨rfl, -⟩ := inv.owned.of_full hfull
    obtain ⟨hholds, hcomplete, -⟩ := inv.handed (.inl hfull)
    simp only [hfull, Option.map_some, Option.some.injEq] at hpending
    rw [hpending] at hholds hcomplete
    exact ⟨rfl, hpending, hholds.cores_eq, hcomplete⟩

/-- A step takes in the snapshot that waits. -/
theorem Inv.step_pending (inv : h.Inv cores) (hpending : h.pending = some s) (c : Checker) :
    c.step h.exchange = some
      { checker := (c.accept s).1
        exchange := h.exchange.turnedOver
        result := .ok (c.accept s).2.1
        notes := (c.accept s).2.2 } := by
  obtain ⟨hfull, rfl, -, hcomplete⟩ := inv.pending_eq hpending
  have hempty := (inv.owned.of_full hfull).2.1
  have hback : ({ h.exchange with full := none }.reset 0).giveBack 0 =
      .done h.exchange.turnedOver := by
    simp [Exchange.giveBack, Exchange.turnedOver, Exchange.reset, Exchange.update, hempty]
  simp only [Checker.step, Exchange.take_full hfull hcomplete, hback]
  rfl

/-- Without one it waits until the exchange is sealed. -/
theorem step_nothing (hpending : h.pending = none) (c : Checker) :
    c.step h.exchange =
      if h.exchange.isSealed then
        some { checker := c, exchange := h.exchange, result := .error (.streamEnded c.steps) }
      else none := by
  have hfull : h.exchange.full = none := by simpa [pending] using hpending
  rw [Checker.step, Exchange.take_none hfull]
  cases h.exchange.isSealed <;> rfl

/-- What a step that succeeds makes of the exchange: its snapshot is empty again. -/
theorem Inv.turnOver (inv : h.Inv cores) (hidle : h.taker = .idle)
    (hpending : h.pending = some s) :
    h.seen = [.ok s] ∧ h.exchange.empty = none ∧
      (h.exchange.turnedOver.snapshot 0).Holds cores [] ∧
      { h with exchange := h.exchange.turnedOver, takes := h.takes ++ h.seen }.Inv cores := by
  obtain ⟨hfull, rfl, -, hcomplete⟩ := inv.pending_eq hpending
  have htake := Exchange.take_full hfull hcomplete
  have hseen : h.seen = [.ok (h.exchange.snapshot 0)] := by
    simp only [seen, htake]
    rfl
  have inv₁ := (inv.take htake).reset rfl
  have inv₂ := inv₁.giveBack rfl inv₁.owned.giveBack.1
  refine ⟨hseen, (inv.owned.of_full hfull).2.1, inv₂.empty rfl, ?_⟩
  rw [hseen, hidle]
  exact inv₂

/-- A step that fails leaves the exchange as it is. -/
theorem Inv.foundSealed (inv : h.Inv cores) (hpending : h.pending = none)
    (hsealed : h.exchange.isSealed = true) :
    h.seen = [.error .exchangeSealed] ∧ { h with takes := h.takes ++ h.seen }.Inv cores := by
  have hfull : h.exchange.full = none := by simpa [pending] using hpending
  have htake := Exchange.take_none hfull
  rw [if_pos hsealed] at htake
  have hseen : h.seen = [.error .exchangeSealed] := by
    simp only [seen, htake]
    rfl
  refine ⟨hseen, ?_⟩
  rw [hseen]
  exact inv.takeFailed htake

end Handover

/-! ## Whole runs -/

/-- A checker, the exchange that it takes its snapshots from, and what its steps came to. -/
structure Checking where
  checker : Checker
  handover : Handover
  /-- What the steps returned. -/
  answers : List (Except Error Bool) := []
  /-- The snapshots that came back to the empty place of the exchange. -/
  drained : List Snapshot := []

namespace Checking

/-- Before the first step. -/
def start (cores : Int) (golden : Option Golden) : Except Fault Checking := do
  return { checker := ← Checker.create cores golden, handover := ← Handover.start cores }

/-- What the steps that succeeded returned. -/
def flags (s : Checking) : List Bool := s.answers.filterMap Except.toOption

/-- The snapshot that comes back between one state of an exchange and the next. -/
def givenBack (x x' : Exchange) : List Snapshot :=
  if x.empty.isSome then [] else (x'.empty.map x'.snapshot).toList

/-- After a step of the checker. -/
def after (s : Checking) (found : Checker.Finding) : Checking where
  checker := found.checker
  handover :=
    { s.handover with
      exchange := found.exchange, takes := s.handover.takes ++ s.handover.seen }
  answers := s.answers ++ [found.result]
  drained := s.drained ++ givenBack s.handover.exchange found.exchange

/-- One step of either party; `giveUp` is a step of the checker that was cancelled. -/
inductive Move : Checking → Checking → Prop where
  | fill {s h} (hmove : Handover.Move s.handover h) (htaker : h.taker = s.handover.taker)
      (htakes : h.takes = s.handover.takes) : Move s { s with handover := h }
  | step {s found} (hstep : s.checker.step s.handover.exchange = some found) :
      Move s (s.after found)
  | giveUp {s} : Move s { s with answers := s.answers ++ [.error .cancelled] }

/-- Any number of steps of both parties. -/
abbrev Reach : Checking → Checking → Prop := Relation.ReflTransGen Move

/-- The checker has taken in what was taken from the exchange. -/
structure Inv (cores : Nat) (golden : Option Golden) (s : Checking) : Prop where
  handover : s.handover.Inv cores
  idle : s.handover.taker = .idle
  taken_cores : ∀ snapshot ∈ s.handover.taken, snapshot.cores = cores
  checker : s.checker.After cores (Golden.recordsOf golden)
    (s.handover.taken.map Snapshot.records)
  golden_eq : s.checker.golden.isSome = golden.isSome
  flags_eq : s.flags = s.handover.taken.mapIdx fun k snapshot =>
    Verdict.mismatch (Golden.recordsOf golden) k 0 snapshot.records
  drained_length : s.drained.length = s.flags.length
  drained_empty : ∀ snapshot ∈ s.drained, snapshot.cores = cores ∧ snapshot.filled = 0

variable {cores : Nat} {golden : Option Golden} {s s' : Checking}

/-- A step that takes nothing from the exchange. -/
theorem Inv.idleStep (inv : s.Inv cores golden) (hnext : s'.handover.Inv cores)
    (htaker : s'.handover.taker = s.handover.taker)
    (htaken : s'.handover.taken = s.handover.taken) (hchecker : s'.checker = s.checker)
    (hflags : s'.flags = s.flags) (hdrained : s'.drained = s.drained) : s'.Inv cores golden where
  handover := hnext
  idle := htaker.trans inv.idle
  taken_cores := by simpa only [htaken] using inv.taken_cores
  checker := by simpa only [htaken, hchecker] using inv.checker
  golden_eq := by rw [hchecker, inv.golden_eq]
  flags_eq := by rw [hflags, htaken, inv.flags_eq]
  drained_length := by rw [hdrained, hflags, inv.drained_length]
  drained_empty := by simpa only [hdrained] using inv.drained_empty

/-- A step takes in the snapshot that waits. -/
theorem Inv.accept (inv : s.Inv cores golden) {snapshot : Snapshot}
    (hpending : s.handover.pending = some snapshot) {found : Checker.Finding}
    (hstep : s.checker.step s.handover.exchange = some found) :
    (s.after found).Inv cores golden := by
  rw [inv.handover.step_pending hpending, Option.some.injEq] at hstep
  subst hstep
  obtain ⟨hseen, hempty, hholds, hnext⟩ := inv.handover.turnOver inv.idle hpending
  obtain ⟨-, -, hcores, -⟩ := inv.handover.pending_eq hpending
  obtain ⟨hafter, hflag⟩ := inv.checker.accept (snapshot.length_records.trans hcores)
  rw [List.length_map] at hflag
  have htaken : { s.handover with
      exchange := s.handover.exchange.turnedOver
      takes := s.handover.takes ++ s.handover.seen }.taken = s.handover.taken ++ [snapshot] := by
    simp [Handover.taken, hseen, Except.toOption]
  have hgiven : givenBack s.handover.exchange s.handover.exchange.turnedOver =
      [s.handover.exchange.turnedOver.snapshot 0] := by
    simp [givenBack, hempty, Exchange.turnedOver]
  exact
    { handover := hnext
      idle := inv.idle
      taken_cores := by
        simp only [after, htaken, List.forall_mem_append, List.forall_mem_singleton]
        exact ⟨inv.taken_cores, hcores⟩
      checker := by
        simp only [after, htaken, List.map_append, List.map_singleton]
        exact hafter
      golden_eq := by
        show (s.checker.accept snapshot).1.golden.isSome = _
        rw [Checker.golden_accept, inv.golden_eq]
      flags_eq := by
        simp only [after, htaken, flags, List.filterMap_append, List.mapIdx_concat]
        rw [← inv.flags_eq, hflag]
        rfl
      drained_length := by
        simp only [after, hgiven, flags, List.filterMap_append, List.length_append]
        rw [inv.drained_length]
        rfl
      drained_empty := by
        simp only [after, hgiven, List.forall_mem_append, List.forall_mem_singleton]
        exact ⟨inv.drained_empty, hholds.cores_eq, hholds.filled_eq⟩ }

theorem Inv.step (inv : s.Inv cores golden) {found : Checker.Finding}
    (hstep : s.checker.step s.handover.exchange = some found) :
    (s.after found).Inv cores golden := by
  cases hpending : s.handover.pending with
  | some snapshot => exact inv.accept hpending hstep
  | none =>
    rw [Handover.step_nothing hpending] at hstep
    by_cases hsealed : s.handover.exchange.isSealed = true
    · rw [if_pos hsealed, Option.some.injEq] at hstep
      subst hstep
      obtain ⟨hseen, hnext⟩ := inv.handover.foundSealed hpending hsealed
      refine inv.idleStep hnext rfl ?_ rfl ?_ ?_
      · simp [after, Handover.taken, hseen, Except.toOption]
      · simp [after, flags, Except.toOption]
      · cases hempty : s.handover.exchange.empty <;> simp [after, givenBack, hempty]
    · rw [if_neg hsealed] at hstep
      cases hstep

theorem Inv.move (inv : s.Inv cores golden) (hmove : Move s s') : s'.Inv cores golden := by
  cases hmove with
  | fill hmove htaker htakes =>
    refine inv.idleStep (inv.handover.move hmove) htaker ?_ rfl rfl rfl
    rw [Handover.taken, htakes, Handover.taken]
  | step hstep => exact inv.step hstep
  | giveUp =>
    refine inv.idleStep inv.handover rfl rfl rfl ?_ rfl
    simp [flags, Except.toOption]

theorem Inv.reach (inv : s.Inv cores golden) (hreach : Reach s s') : s'.Inv cores golden := by
  induction hreach with
  | refl => exact inv
  | tail _ hmove ih => exact ih.move hmove

/-- A checker and an exchange can be made for every number of cores within the limits. -/
theorem start_inv {cores : Int} (hlow : 1 ≤ cores) (hhigh : cores ≤ maxCores)
    (hfresh : ∀ g, golden = some g → g.Fresh cores.toNat) :
    ∃ s, start cores golden = .ok s ∧ s.Inv cores.toNat golden := by
  obtain ⟨c, hchecker, hat⟩ := Checker.create_at hlow hhigh hfresh
  obtain ⟨h, hhandover, inv⟩ := Handover.start_inv hlow hhigh
  obtain ⟨hidle, htakes⟩ : h.taker = .idle ∧ h.takes = [] := by
    obtain ⟨x, -, hh⟩ := bind_eq_ok hhandover
    cases hh
    exact ⟨rfl, rfl⟩
  have htaken : h.taken = [] := by rw [Handover.taken, htakes, List.filterMap_nil]
  have hc := Checker.create_eq_ok hchecker
  refine ⟨{ checker := c, handover := h }, ?_, ?_⟩
  · simp only [start, hchecker, hhandover, bind, Except.bind]
    rfl
  · exact
      { handover := inv
        idle := hidle
        taken_cores := by simp [htaken]
        checker := by
          rw [htaken]
          refine ⟨hat, by simp [hc], by simp [hc], fun core hcore => ?_⟩
          simp [hc, Array.getD_eq_getD_getElem?, hcore, Checker.committed]
        golden_eq := by rw [hc]
        flags_eq := by simp [htaken, flags]
        drained_length := rfl
        drained_empty := by simp }

/-- What holds of a checker for `cores` cores, after steps of which some have succeeded. -/
structure Checked (cores : Nat) (golden : Option Golden) (s : Checking) : Prop where
  /-- Every step that succeeds takes the next published snapshot. -/
  published : s.flags.length ≤ s.handover.published.length
  shows_last : ∀ (k : Nat) (snapshot : Snapshot), s.flags.length = k + 1 →
    s.handover.published[k]? = some snapshot →
    snapshot.cores = cores ∧ s.checker.Shows snapshot
  /-- Commits are counted modulo the size of a word. -/
  commits_eq : ∀ core < cores, s.checker.commits[core]? = some (.ofNat (Checker.committed
    ((s.handover.published.take s.flags.length).map (·.record core))))
  steps_eq : s.checker.steps = .ofNat s.flags.length
  /-- Every step that succeeds leaves an empty snapshot for the next one. -/
  drained_length : s.drained.length = s.flags.length
  drained_empty : ∀ snapshot ∈ s.drained, snapshot.cores = cores ∧ snapshot.filled = 0
  /-- Every step that succeeds compares every core, as long as it has golden records. -/
  cursors : ∀ g, golden = some g → ∃ g', s.checker.golden = some g' ∧ ∀ core < cores,
    (g'.lanes.getD core {}).records = (g.lanes.getD core {}).records ∧
      (g'.lanes.getD core {}).next = min s.flags.length (g.lanes.getD core {}).records.size
  /-- A step finds a mismatch exactly if a core differs from its golden record. -/
  flags_iff : ∀ (k : Nat) (flag : Bool), s.flags[k]? = some flag → ∃ snapshot : Snapshot,
    s.handover.published[k]? = some snapshot ∧
      (flag = true ↔ ∃ core < cores, ∃ want : CoreState,
        (Golden.recordsOf golden core)[k]? = some want ∧
        (want.commit ≠ (snapshot.record core).commit ∨ want.regs ≠ (snapshot.record core).regs ∨
          want.trap.pc ≠ (snapshot.record core).trap.pc))
  /-- A step succeeds if a snapshot waits, and fails if none will come. -/
  step_ok : ∀ snapshot, s.handover.pending = some snapshot →
    ∃ found flag, s.checker.step s.handover.exchange = some found ∧ found.result = .ok flag
  step_error : s.handover.pending = none → s.handover.exchange.isSealed = true →
    ∃ found, s.checker.step s.handover.exchange = some found ∧
      found.result = .error (.streamEnded (.ofNat s.flags.length))
  /-- A step that fails leaves everything as it is: the exchange is at its end, or the caller
  gave up while there was nothing to take. -/
  failed : ∀ (l : Line) cancelled answer, l.checker = s.checker →
    l.device.exchange = s.handover.exchange → l.poll cancelled = some answer →
    ∀ e, answer.result = .error e → answer.oracle = l ∧ s.handover.pending = none ∧
      (s.handover.exchange.isSealed = true ∧ e = .streamEnded (.ofNat s.flags.length) ∨
        cancelled = true ∧ e = .cancelled)

theorem Inv.taken_length (inv : s.Inv cores golden) :
    s.handover.taken.length = s.flags.length := by
  rw [inv.flags_eq, List.length_mapIdx]

theorem Inv.taken_eq (inv : s.Inv cores golden) :
    s.handover.published.take s.flags.length = s.handover.taken := by
  rw [← inv.taken_length, ← inv.handover.order, List.take_left]

theorem Inv.steps_eq (inv : s.Inv cores golden) : s.checker.steps = .ofNat s.flags.length := by
  rw [inv.checker.compared.steps_eq, List.length_map, inv.taken_length]

/-- A poll that fails has found nothing to take, and leaves the line as it is. -/
theorem Inv.failed (inv : s.Inv cores golden) {l : Line} {cancelled : Bool} {answer : Answer Line}
    (hchecker : l.checker = s.checker) (hexchange : l.device.exchange = s.handover.exchange)
    (hpoll : l.poll cancelled = some answer) {e : Error} (herror : answer.result = .error e) :
    answer.oracle = l ∧ s.handover.pending = none ∧
      (s.handover.exchange.isSealed = true ∧ e = .streamEnded (.ofNat s.flags.length) ∨
        cancelled = true ∧ e = .cancelled) := by
  unfold Line.poll at hpoll
  rw [hchecker, hexchange] at hpoll
  cases hpending : s.handover.pending with
  | some snapshot =>
    simp only [inv.handover.step_pending hpending, Option.some.injEq] at hpoll
    subst hpoll
    cases herror
  | none =>
    rw [Handover.step_nothing hpending] at hpoll
    cases hsealed : s.handover.exchange.isSealed with
    | true =>
      simp only [hsealed, if_true, Option.some.injEq] at hpoll
      subst hpoll
      refine ⟨?_, rfl, .inl ⟨rfl, ?_⟩⟩
      · rw [← hchecker, ← hexchange]
      · rw [← Except.error.inj herror, inv.steps_eq]
    | false =>
      cases cancelled with
      | false => simp [hsealed] at hpoll
      | true =>
        simp only [hsealed, Bool.false_eq_true, if_false, if_true, Option.some.injEq] at hpoll
        subst hpoll
        exact ⟨rfl, rfl, .inr ⟨rfl, (Except.error.inj herror).symm⟩⟩

/-- The last snapshot taken is the one that the checker answers from. -/
theorem Inv.shows_last (inv : s.Inv cores golden) {k : Nat} {snapshot : Snapshot}
    (hk : s.flags.length = k + 1) (hsnapshot : s.handover.published[k]? = some snapshot) :
    snapshot.cores = cores ∧ s.checker.Shows snapshot := by
  have htaken : s.handover.taken[k]? = some snapshot := by
    rw [← inv.taken_eq, hk, List.getElem?_take_of_lt (by omega), hsnapshot]
  refine ⟨inv.taken_cores _ (List.mem_of_getElem? htaken), Checker.shows_of_cores ?_⟩
  have hlast : s.handover.taken.getLast? = some snapshot := by
    rw [List.getLast?_eq_getElem?, inv.taken_length, hk, Nat.add_sub_cancel, htaken]
  rw [inv.checker.compared.cores_eq, List.getLast?_map, hlast]
  rfl

theorem Inv.commits_eq (inv : s.Inv cores golden) {core : Nat} (hcore : core < cores) :
    s.checker.commits[core]? = some (.ofNat (Checker.committed
      ((s.handover.published.take s.flags.length).map (·.record core)))) := by
  have hrecords : (s.handover.taken.map Snapshot.records).map (fun states => states.getD core {}) =
      s.handover.taken.map (·.record core) := by
    rw [List.map_map]
    refine List.map_congr_left fun snapshot hmem => ?_
    exact Snapshot.getD_records (inv.taken_cores snapshot hmem ▸ hcore)
  have hcommits := inv.checker.commits_eq core hcore
  rw [hrecords, ← inv.taken_eq] at hcommits
  rw [← hcommits]
  simp [Array.getD_eq_getD_getElem?, inv.checker.commits_size, hcore]

theorem Inv.cursors (inv : s.Inv cores golden) {g : Golden} (hgolden : golden = some g) :
    ∃ g', s.checker.golden = some g' ∧ ∀ core < cores,
      (g'.lanes.getD core {}).records = (g.lanes.getD core {}).records ∧
        (g'.lanes.getD core {}).next = min s.flags.length (g.lanes.getD core {}).records.size := by
  have hsome := inv.golden_eq
  rw [hgolden] at hsome
  obtain ⟨g', hg'⟩ := Option.isSome_iff_exists.mp hsome
  obtain ⟨-, -, hlanes⟩ := inv.checker.compared.some_golden g' hg'
  have hlength := congrArg List.length inv.checker.compared.cores_eq
  rw [Array.length_toList, inv.checker.cores_size] at hlength
  refine ⟨g', hg', fun core hcore => ?_⟩
  have hlane := hlanes core (hlength ▸ hcore)
  rw [List.length_map, inv.taken_length, hgolden] at hlane
  exact ⟨Array.toList_inj.mp hlane.records_eq, by simpa [Golden.recordsOf] using hlane.next_eq⟩

theorem Inv.flags_iff (inv : s.Inv cores golden) {k : Nat} {flag : Bool}
    (hflag : s.flags[k]? = some flag) : ∃ snapshot, s.handover.published[k]? = some snapshot ∧
      (flag = true ↔ ∃ core < cores, ∃ want, (Golden.recordsOf golden core)[k]? = some want ∧
        (want.commit ≠ (snapshot.record core).commit ∨ want.regs ≠ (snapshot.record core).regs ∨
          want.trap.pc ≠ (snapshot.record core).trap.pc)) := by
  rw [inv.flags_eq, List.getElem?_mapIdx, Option.map_eq_some_iff] at hflag
  obtain ⟨snapshot, hsnapshot, rfl⟩ := hflag
  have hcores := inv.taken_cores _ (List.mem_of_getElem? hsnapshot)
  refine ⟨snapshot, inv.handover.published_of_taken hsnapshot, ?_⟩
  rw [Verdict.mismatch_iff]
  constructor
  · rintro ⟨core, state, hstate, hdiffers⟩
    have hlt := (List.getElem?_eq_some_iff.mp hstate).1
    rw [snapshot.length_records] at hlt
    rw [Snapshot.getElem?_records hlt, Option.some.injEq] at hstate
    rw [Nat.zero_add, ← hstate, Verdict.differs_iff] at hdiffers
    exact ⟨core, hcores ▸ hlt, hdiffers⟩
  · rintro ⟨core, hcore, hdiffers⟩
    refine ⟨core, snapshot.record core, Snapshot.getElem?_records (hcores ▸ hcore), ?_⟩
    rwa [Nat.zero_add, Verdict.differs_iff]

theorem Inv.checked (inv : s.Inv cores golden) : s.Checked cores golden where
  published := by
    rw [← inv.handover.order, List.length_append, inv.taken_length]
    omega
  shows_last := fun _ _ hk hsnapshot => inv.shows_last hk hsnapshot
  commits_eq := fun _ hcore => inv.commits_eq hcore
  steps_eq := inv.steps_eq
  drained_length := inv.drained_length
  drained_empty := inv.drained_empty
  cursors := fun _ hgolden => inv.cursors hgolden
  flags_iff := fun _ _ hflag => inv.flags_iff hflag
  step_ok := fun _ hpending => ⟨_, _, inv.handover.step_pending hpending s.checker, rfl⟩
  step_error := by
    intro hpending hsealed
    refine ⟨_, (Handover.step_nothing hpending s.checker).trans (if_pos hsealed), ?_⟩
    rw [inv.steps_eq]
  failed := fun _ _ _ hchecker hexchange hpoll _ herror =>
    inv.failed hchecker hexchange hpoll herror

/-- Whatever is published and whenever the checker steps, after its steps it answers from the
last snapshot that it took, has counted and compared every core once for each of them, and has
given every snapshot back empty.  Steps that fail change nothing. -/
theorem checked_of_reach (cores : Int) (golden : Option Golden) (hlow : 1 ≤ cores)
    (hhigh : cores ≤ maxCores) (hfresh : ∀ g, golden = some g → g.Fresh cores.toNat) :
    ∃ s₀, start cores golden = .ok s₀ ∧ ∀ s, Reach s₀ s → s.Checked cores.toNat golden := by
  obtain ⟨s₀, hstart, inv⟩ := start_inv hlow hhigh hfresh
  exact ⟨s₀, hstart, fun s hreach => (inv.reach hreach).checked⟩

/-- Two cores, of which only core 0 has a golden record: it differs in the commit, and core 1
traps.  After that the exchange is sealed, and a second step fails. -/
theorem checked_of_reach_mismatch :
    let golden : Golden := { lanes := #[{ records := #[{}] }, {}] }
    ∃ s₀ s, start 2 (some golden) = .ok s₀ ∧ Reach s₀ s ∧ s.Checked 2 (some golden) ∧
      s.answers = [.ok true, .error (.streamEnded 1)] ∧ s.checker.trapState = 5 ∧
      s.checker.commits = #[3, 0] ∧ s.drained.length = 1 := by
  intro golden
  obtain ⟨s₀, hstart, hchecked⟩ := checked_of_reach 2 (some golden) (by decide) (by decide) (by
    intro g hg
    obtain rfl := Option.some.inj hg
    refine ⟨rfl, rfl, fun core => ?_⟩
    rcases core with _ | _ | core <;> rfl)
  let s₁ : Checking :=
    { checker := { golden := some golden, cores := #[{}, {}], commits := #[0, 0] }
      handover := { exchange := { snapshots := #[{ slots := #[none, none] }], empty := some 0 } } }
  obtain rfl : s₀ = s₁ := Except.ok.inj (hstart.symm.trans rfl)
  have hbegun : Reach s₁ s₁ := .refl
  have hclaim := hbegun.tail (.fill (.claim rfl rfl) rfl rfl)
  have hfirst := hclaim.tail (.fill
    (.put 1 { trap := { hasTrap := true, code := 5 } } rfl rfl) rfl rfl)
  have hsecond := hfirst.tail (.fill
    (.put 0 { commit := { valid := true, count := 3 } } rfl rfl) rfl rfl)
  have hsent := (hsecond.tail (.fill (.stamp rfl rfl) rfl rfl)).tail (.fill (.send rfl rfl) rfl rfl)
  have hstep := hsent.tail (.step rfl)
  have hreach := (hstep.tail (.fill (.close (.inl rfl) rfl) rfl rfl)).tail (.step rfl)
  exact ⟨_, _, hstart, hreach, hchecked _ hreach, by decide +kernel, by decide +kernel,
    by decide +kernel, rfl⟩

end Checking

end Cosim
