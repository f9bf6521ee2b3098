import Cosim.Proofs.Completion
import Cosim.Proofs.Histories

/-!
# Golden traces that match

A golden trace that has the same history for every core as the hardware stream changes
nothing about a run.  It may have the records of different cores in another order, and its
records may differ from those of the stream in whatever is not compared.

* `CoreState.Alike` says what is compared, and `Stream.SameHistories` that two streams agree
  in it, core by core.
* `Golden.load_ok` says that loading keeps the history of every core.
* `Stream.SameHistories.mismatch` says that no block differs, and
  `Supervisor.verdict_of_matching` that the verdict then is the one without a golden trace.
* `Supervisor.Unchanged` says what it means for a run that a golden trace makes no difference,
  and `Supervisor.matching_golden_changes_nothing` that such a trace makes none.
-/

namespace Cosim

/-! ## Equal histories -/

/-- A golden record that may differ from the state of the design in the trap, its code and
the counters, and in nothing else. -/
def CoreState.Alike (want got : CoreState) : Prop :=
  ∃ hasTrap code cycles instrs,
    want = { got with trap := { got.trap with hasTrap, code, cycles, instrs } }

/-- Each core reports the same in both streams, apart from what is not compared. -/
def Stream.SameHistories (golden stream : List UInt8) : Prop :=
  ∀ core, List.Forall₂ CoreState.Alike (history core (records golden))
    (history core (records stream))

namespace Stream.SameHistories

variable {cores core k : Nat} {golden stream : List UInt8} {want got : CoreState}

/-- The golden trace names the cores that the stream names. -/
theorem core_lt (hsame : SameHistories golden stream) (hlt : ∀ r ∈ records stream, r.1 < cores) :
    ∀ r ∈ records golden, r.1 < cores := by
  intro r hr
  by_contra hout
  have hnone : history r.1 (records stream) = [] := by
    refine history_eq_nil fun hmem => ?_
    obtain ⟨r', hr', hcore⟩ := List.mem_map.mp hmem
    exact hout (hcore ▸ hlt r' hr')
  have hlength := (hsame r.1).length_eq
  rw [hnone, List.length_nil, List.length_eq_zero_iff, history, List.map_eq_nil_iff] at hlength
  simpa using List.filter_eq_nil_iff.mp hlength r hr

theorem alike (hsame : SameHistories golden stream)
    (hwant : (history core (records golden))[k]? = some want)
    (hgot : (history core (records stream))[k]? = some got) : want.Alike got := by
  obtain ⟨hk, rfl⟩ := List.getElem?_eq_some_iff.mp hwant
  obtain ⟨hk', rfl⟩ := List.getElem?_eq_some_iff.mp hgot
  exact (hsame core).get hk hk'

end Stream.SameHistories

/-! ## Loading -/

namespace Golden

variable {cores : Int} {bytes : List UInt8}

/-- A golden stream of whole records that name only cores that there are is accepted, and
each lane holds what its core reports. -/
theorem load_ok (hlow : 1 ≤ cores) (hhigh : cores ≤ maxCores) (hwhole : chunkSize ∣ bytes.length)
    (hlt : ∀ r ∈ Stream.records bytes, r.1 < cores.toNat) :
    ∃ g, load cores bytes = .ok (.ok g) ∧ ∀ core,
      (g.lanes.getD core {}).records.toList = Stream.history core (Stream.records bytes) := by
  have hcores : 0 ≤ cores := by omega
  have hfits : cores * laneWidth ≤ Fault.addressable := by
    have hmemory : Fault.addressable = 281474976710656 := by decide
    simp only [maxCores, laneWidth] at hhigh ⊢
    omega
  have hanswers := loadFrom_answers hcores bytes
  obtain ⟨g, hg⟩ := hanswers.ok_iff.mpr ⟨hwhole, fun r hr => by have := hlt r hr; omega⟩
  refine ⟨g, by rw [load_eq hcores, if_pos hfits, hg], fun core => ?_⟩
  rcases Nat.lt_or_ge core cores.toNat with hcore | hcore
  · rw [(hanswers.loaded g hg).lane_getD hcore]
  · rw [(hanswers.loaded g hg).lane_of_ge hcore, Stream.history_eq_nil]
    intro hmem
    obtain ⟨r, hr, rfl⟩ := List.mem_map.mp hmem
    exact absurd (hlt r hr) (Nat.not_lt_of_ge hcore)

end Golden

/-! ## Comparing -/

namespace Verdict

variable {golden golden' : Nat → List CoreState} {limit : UInt64} {k core : Nat}
  {states last : List CoreState} {blocks : List (List CoreState)} {marks : Marks}

/-- A golden record that is alike does not differ. -/
theorem differs_eq_false {records : List CoreState} {got : CoreState}
    (halike : ∀ want, records[k]? = some want → want.Alike got) :
    differs records k got = false := by
  unfold differs
  split
  · rfl
  · rename_i want hwant
    obtain ⟨hasTrap, code, cycles, instrs, rfl⟩ := halike want hwant
    simp

/-- Where no core differs there is no mismatch. -/
theorem mismatch_eq_false
    (hsame : ∀ i s, states[i]? = some s → differs (golden (core + i)) k s = false) :
    mismatch golden k core states = false := by
  induction states generalizing core with
  | nil => rfl
  | cons s rest ih =>
    have hfirst := hsame 0 s rfl
    rw [Nat.add_zero] at hfirst
    rw [mismatch, hfirst, Bool.false_or]
    refine ih fun i s' hs' => ?_
    rw [Nat.add_right_comm]
    exact hsame (i + 1) s' hs'

/-- The golden records come into the verdict only by the mismatches that they make. -/
theorem judge_congr
    (hsame : ∀ i states, blocks[i]? = some states →
      mismatch golden (k + i) 0 states = mismatch golden' (k + i) 0 states) :
    judge golden limit k marks last blocks = judge golden' limit k marks last blocks := by
  induction blocks generalizing k marks last with
  | nil => rfl
  | cons states rest ih =>
    have hfirst := hsame 0 states rfl
    rw [Nat.add_zero] at hfirst
    have hrest : ∀ marks, judge golden limit (k + 1) marks states rest =
        judge golden' limit (k + 1) marks states rest := by
      intro marks
      refine ih fun i states' hi => ?_
      rw [Nat.add_right_comm]
      exact hsame (i + 1) states' hi
    simp only [judge, hfirst, hrest]

end Verdict

/-- No block of an accepted stream differs from golden records with the same histories. -/
theorem Stream.SameHistories.mismatch {cores k : Nat} {golden stream : List UInt8}
    {lanes : Nat → List CoreState} {states : List CoreState}
    (hsame : SameHistories golden stream) (hw : WellFormed cores stream)
    (hlanes : ∀ core, lanes core = history core (records golden))
    (hk : (blocks cores (records stream))[k]? = some states) :
    Verdict.mismatch lanes k 0 states = false := by
  have hlt : k < (records stream).length / cores := by
    have := (List.getElem?_eq_some_iff.mp hk).1
    rwa [length_blocks] at this
  rw [getElem?_blocks hlt, Option.some.injEq] at hk
  subst hk
  refine Verdict.mismatch_eq_false fun core got hgot => ?_
  have hcore : core < cores := by
    have := (List.getElem?_eq_some_iff.mp hgot).1
    rwa [length_states] at this
  rw [← hw.getElem?_history hlt hcore] at hgot
  refine Verdict.differs_eq_false fun want hwant => ?_
  rw [hlanes, Nat.zero_add] at hwant
  exact hsame.alike hwant hgot

/-! ## The checker -/

namespace Checker

/-- Whether a core differed, for each of some snapshots that are taken in. -/
def flags (c : Checker) : List Snapshot → List Bool
  | [] => []
  | s :: rest => (c.accept s).2.1 :: flags (c.accept s).1 rest

/-- The flags are those of the verdict's comparison. -/
theorem At.flags {c : Checker} {golden : Nat → List CoreState} {k : Nat} {last : List CoreState}
    {snapshots : List Snapshot} (hc : c.At golden k last)
    (hlength : ∀ s ∈ snapshots, s.records.length = last.length)
    (hsame : ∀ i s, snapshots[i]? = some s → Verdict.mismatch golden (k + i) 0 s.records = false) :
    ∀ flag ∈ c.flags snapshots, flag = false := by
  induction snapshots generalizing c k last with
  | nil => simp [Checker.flags]
  | cons s rest ih =>
    obtain ⟨hnext, hflag⟩ := hc.accept (hlength s (.head _))
    have hfirst := hsame 0 s rfl
    rw [Nat.add_zero] at hfirst
    intro flag hmem
    rcases List.mem_cons.mp hmem with rfl | hmem
    · exact hflag.trans hfirst
    · refine ih hnext (fun s' hs' => ?_) (fun i s' hs' => ?_) flag hmem
      · rw [hlength s' (.tail _ hs'), hlength s (.head _)]
      · rw [Nat.add_right_comm]
        exact hsame (i + 1) s' hs'

/-- A checker whose golden records match some blocks finds nothing in them. -/
theorem At.flags_of_blocks {c : Checker} {golden : Nat → List CoreState} {last : List CoreState}
    {snapshots : List Snapshot} {blocks : List (List CoreState)} (hc : c.At golden 0 last)
    (hblocks : snapshots.map Snapshot.records <+: blocks)
    (hlength : ∀ states ∈ blocks, states.length = last.length)
    (hmatch : ∀ (k : Nat) (states : List CoreState), blocks[k]? = some states →
      Verdict.mismatch golden k 0 states = false) :
    ∀ flag ∈ c.flags snapshots, flag = false := by
  refine hc.flags (fun s hs => ?_) (fun i s hi => ?_)
  · exact hlength s.records (hblocks.subset (List.mem_map.mpr ⟨s, hs, rfl⟩))
  · obtain ⟨rest, rfl⟩ := hblocks
    have hlt := (List.getElem?_eq_some_iff.mp hi).1
    rw [Nat.zero_add]
    refine hmatch i s.records ?_
    rw [List.getElem?_append_left (by simpa using hlt), List.getElem?_map, hi]
    rfl

end Checker

/-! ## Supervised runs -/

/-- Two accounts with the same outcome, end information and last events. -/
structure RunResult.Same (result result' : RunResult) : Prop where
  outcome_eq : result.outcome = result'.outcome
  info_eq : result.info = result'.info
  final_eq : result.final = result'.final

theorem Verdict.Describes.same {v : Verdict} {result result' : RunResult}
    (h : v.Describes result) (h' : v.Describes result') : result.Same result' where
  outcome_eq := h.outcome_eq.trans h'.outcome_eq.symm
  info_eq := h.info_eq.trans h'.info_eq.symm
  final_eq := h.final_eq.trans h'.final_eq.symm

namespace Supervisor

variable {files : Files} {config : Config} {cores : Int} {g : Golden} {bytes : List UInt8}

/-- A golden trace that can be read and loaded is opened. -/
theorem openReference_eq {path : String} (hname : path.endsWith ".so" = false)
    (hread : files.read path = .ok bytes) (hload : Golden.load cores bytes = .ok (.ok g)) :
    ∃ notes, openReference files path cores = .ok (.ok (g, notes)) := by
  obtain ⟨entry, hopen, hcontents⟩ := bind_eq_ok hread
  simp only [openReference, hname, hopen, hcontents, hload, bind, Except.bind]
  exact ⟨_, rfl⟩

theorem referenceOf_eq (hdiff : config.noDiff = false) (hpath : config.diff ≠ "")
    (hname : config.diff.endsWith ".so" = false) (hread : files.read config.diff = .ok bytes)
    (hload : Golden.load config.cores bytes = .ok (.ok g)) :
    referenceOf files config true = .ok (.ok (some g)) := by
  obtain ⟨notes, hreference⟩ := openReference_eq hname hread hload
  simp only [referenceOf, hdiff, hpath, hreference, bind, Except.bind]
  rfl

/-- A configuration without comparison asks for no golden trace. -/
theorem referenceOf_noDiff (files : Files) (config : Config) (known : Bool) :
    referenceOf files { config with noDiff := true } known = .ok (.ok none) := by
  simp only [referenceOf, true_or, if_true]
  rfl

/-- In a run whose golden records match the blocks, no step of the checker differs. -/
theorem agrees_of_inv {job : Job} {s : Supervision} (inv : s.Inv job)
    (hmatch : ∀ (k : Nat) (states : List CoreState), job.blocks[k]? = some states →
      Verdict.mismatch job.golden k 0 states = false)
    {differs : Bool} {left : Nat} (hloop : s.loop = .judging (.ok differs) left) :
    differs = false := by
  obtain ⟨h, -, ⟨k, marks, last, hr⟩ | he⟩ := inv
  · obtain ⟨states, hstates, -, -, rfl⟩ := hr.answered differs left hloop
    exact hmatch k states hstates
  · have hrests := he.rests
    simp [hloop, Loop.atRest] at hrests

/-- Golden records that match the blocks leave the verdict as it is without any. -/
theorem verdict_of_matching {cores : Nat} {stream : List UInt8} {g : Golden} (limit : UInt64)
    (hw : Stream.WellFormed cores stream)
    (hmatch : ∀ (k : Nat) (states : List CoreState),
      (Stream.blocks cores (Stream.records stream))[k]? = some states →
        Verdict.mismatch (Golden.recordsOf (some g)) k 0 states = false) :
    (Job.mk cores (Golden.recordsOf (some g)) limit stream hw).verdict =
      (Job.mk cores (Golden.recordsOf none) limit stream hw).verdict := by
  refine Verdict.judge_congr fun i states hi => ?_
  rw [Nat.zero_add, hmatch i states hi]
  exact (Verdict.mismatch_eq_false fun _ _ _ => rfl).symm

/-- A golden trace makes no difference: `g` is the trace, `p` the pipeline that compares with
it, and `q` the one that does not compare. -/
structure Unchanged (files : Files) (config : Config) (source : Source) (pending bytes : List UInt8)
    (g : Golden) (p q : Pipeline) : Prop where
  loaded : Golden.load config.cores bytes = .ok (.ok g)
  prepared : prepare files config true = .ok (.ok p)
  prepared_plain : prepare files { config with noDiff := true } true = .ok (.ok q)
  /-- A checker that takes in the blocks of the stream finds no difference. -/
  no_flag : ∀ c snapshots, Checker.create config.cores (some g) = .ok c →
    snapshots.map Snapshot.records <+:
      Stream.blocks config.cores.toNat (Stream.records (source.queue ++ pending)) →
    ∀ flag ∈ c.flags snapshots, flag = false
  /-- No step of the checker in the run finds one. -/
  no_mismatch : ∀ s, Supervision.Reach config.stepBatch.toNat (Supervision.start p pending) s →
    ∀ differs left, s.loop = .judging (.ok differs) left → differs = false
  ends : ¬ Endless (Supervision.Move config.stepBatch.toNat) (Supervision.start p pending)
  ends_plain : ¬ Endless (Supervision.Move config.stepBatch.toNat) (Supervision.start q pending)
  /-- However hardware, workers, loop and caller take turns, in either run, both come to the
  same account. -/
  same : ∀ s s', Supervision.Reach config.stepBatch.toNat (Supervision.start p pending) s →
    s.Stuck config.stepBatch.toNat →
    Supervision.Reach config.stepBatch.toNat (Supervision.start q pending) s' →
    s'.Stuck config.stepBatch.toNat →
    ∃ result result', s.caller = .done result ∧ s'.caller = .done result' ∧ result.Same result'
  /-- So they do in the order in which `run` lets them. -/
  same_run : source.tail = .ended .finished → ∃ result result',
    run files config true false = .ok (.ok result) ∧
      run files { config with noDiff := true } true false = .ok (.ok result') ∧ result.Same result'

/-- A golden trace with the same history for every core as an accepted stream makes no
difference to the run on that stream. -/
theorem matching_golden_changes_nothing (files : Files) (config : Config) (source : Source)
    (notes : Journal) (pending bytes : List UInt8) (hlow : 1 ≤ config.cores)
    (hhigh : config.cores ≤ maxCores) (hdepth : 1 ≤ config.poolDepth)
    (hroom : Pool.checkRoom config.poolDepth chunkSize = .ok ()) (hbatch : 1 ≤ config.stepBatch)
    (hopen : openDevice files config.image = .ok (source, notes))
    (htail : source.tail = .opened ∨ source.tail = .ended .finished ∧ pending = [])
    (hwhole : chunkSize ∣ (source.queue ++ pending).length)
    (haccepted :
      Stream.refusal config.cores.toNat (Stream.records (source.queue ++ pending)) = none)
    (hdiff : config.noDiff = false) (hpath : config.diff ≠ "")
    (hname : config.diff.endsWith ".so" = false) (hread : files.read config.diff = .ok bytes)
    (hbytes : chunkSize ∣ bytes.length)
    (hsame : Stream.SameHistories bytes (source.queue ++ pending)) :
    ∃ g p q, Unchanged files config source pending bytes g p q := by
  have hw := Stream.wellFormed_iff_accepted.mpr ⟨hwhole, haccepted⟩
  obtain ⟨g, hload, hlanes⟩ := Golden.load_ok hlow hhigh hbytes (hsame.core_lt hw.core_lt)
  have hmatch : ∀ (k : Nat) (states : List CoreState),
      (Stream.blocks config.cores.toNat (Stream.records (source.queue ++ pending)))[k]? =
        some states → Verdict.mismatch (Golden.recordsOf (some g)) k 0 states = false :=
    fun k states hk => hsame.mismatch hw hlanes hk
  have hverdict := verdict_of_matching config.maxInstrs hw hmatch
  obtain ⟨p, hprepare, inv, hrun⟩ := prepare_verdict hlow hhigh hdepth hroom hbatch hopen htail
    (referenceOf_eq hdiff hpath hname hread hload) hw
  let plain : Config := { config with noDiff := true }
  obtain ⟨q, hprepare', inv', hrun'⟩ := prepare_verdict (show 1 ≤ plain.cores from hlow) hhigh
    hdepth hroom hbatch hopen htail (referenceOf_noDiff files config true) hw
  have hpos : 1 ≤ config.stepBatch.toNat := by omega
  refine ⟨g, p, q, hload, hprepare, hprepare', ?_, ?_, inv.ends hpos, inv'.ends hpos, ?_, ?_⟩
  · intro c snapshots hcreate hblocks
    obtain ⟨c', hcreate', hc⟩ := Checker.create_at hlow hhigh
      (fun g' hg' => Option.some.inj hg' ▸ Golden.Fresh.load hload)
    obtain rfl : c = c' := Except.ok.inj (hcreate.symm.trans hcreate')
    exact hc.flags_of_blocks hblocks
      (fun states hstates => by simp [Stream.length_of_mem_blocks hstates]) hmatch
  · intro s hreach differs left hloop
    exact agrees_of_inv (inv.reach hreach) hmatch hloop
  · intro s s' hreach hstuck hreach' hstuck'
    obtain ⟨result, hcaller, hdescribes⟩ := (inv.reach hreach).done_of_stuck hstuck
    obtain ⟨result', hcaller', hdescribes'⟩ := (inv'.reach hreach').done_of_stuck hstuck'
    exact ⟨result, result', hcaller, hcaller', (hverdict ▸ hdescribes).same hdescribes'⟩
  · intro hfinished
    obtain ⟨result, hresult, hdescribes⟩ := hrun hfinished
    obtain ⟨result', hresult', hdescribes'⟩ := hrun' hfinished
    exact ⟨result, result', hresult, hresult', (hverdict ▸ hdescribes).same hdescribes'⟩

/-- Two cores; the golden trace has all records of core 0 before those of core 1, has other
counters and does not trap.  The run ends by the trap in the stream, as it does without
comparison. -/
theorem matching_golden_changes_nothing_other_order :
    let image := CoreState.encodeChunk 1 {} ++ CoreState.encodeChunk 0 {} ++
      CoreState.encodeChunk 0 {} ++ CoreState.encodeChunk 1 { trap := { hasTrap := true } }
    let golden := CoreState.encodeChunk 0 {} ++
      CoreState.encodeChunk 0 { trap := { instrs := 5 } } ++
      CoreState.encodeChunk 1 { trap := { cycles := 7 } } ++ CoreState.encodeChunk 1 {}
    let files : Files :=
      { entries := [(["image"], .regular image), (["golden"], .regular golden)] }
    let config : Config :=
      { image := "image", diff := "golden", cores := 2, poolDepth := 3, stepBatch := 2 }
    ∃ result result', run files config true false = .ok (.ok result) ∧
      run files { config with noDiff := true } true false = .ok (.ok result') ∧
      result.Same result' := by
  intro image golden files config
  have hfind : files.find config.image = .ok (.regular image) := by decide +kernel
  obtain ⟨notes, hopen⟩ := openDevice_regular hfind
  have hstream : Stream.records (image ++ []) =
      [(1, {}), (0, {}), (0, {}), (1, { trap := { hasTrap := true } })] := by
    decide +kernel
  have hgolden : Stream.records golden =
      [(0, {}), (0, { trap := { instrs := 5 } }), (1, { trap := { cycles := 7 } }), (1, {})] := by
    decide +kernel
  have hsame : Stream.SameHistories golden (image ++ []) := by
    intro core
    rw [hgolden, hstream]
    rcases core with _ | _ | core
    · exact .cons ⟨_, _, _, _, rfl⟩ (.cons ⟨_, _, _, _, rfl⟩ .nil)
    · exact .cons ⟨_, _, _, _, rfl⟩ (.cons ⟨_, _, _, _, rfl⟩ .nil)
    · exact .nil
  obtain ⟨g, p, q, hunchanged⟩ := matching_golden_changes_nothing files config _ notes [] golden
    (by decide) (by decide) (by decide) (by decide) (by decide) hopen
    (.inr ⟨rfl, rfl⟩) (by decide +kernel) (by decide +kernel) rfl (by decide) (by decide +kernel)
    (by decide +kernel) (by decide +kernel) hsame
  exact hunchanged.same_run rfl

end Supervisor

end Cosim
