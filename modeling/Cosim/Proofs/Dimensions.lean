import Cosim.Proofs.Layers
import Cosim.Proofs.Refinement

/-!
# Dimensions

A configuration that passes its checks fixes the dimensions of a pipeline: the cores, which are
bounded on both sides, and the depth of the pool, which is bounded from below only.

* `Pool.checkRoom_chunks` says which depths of a pool of chunks fit into memory.  Where the slots
  fit, the number of bytes does not wrap, so the bytes alone decide.
* `Supervisor.referenceOf_answers` says that the golden trace is opened or refused, and
  `Pipeline.create_of_fits` and `Pipeline.create_of_exceeds` say what becomes of a pipeline.
* `Supervisor.prepare_of_validate` puts them together: a configuration that passes its checks
  gives a pipeline if its pool fits into memory, and runs into a fault if it does not.
-/

namespace Cosim

namespace Pool

variable {depth : Int}

/-- The chunks of a pool whose slots fit into memory have a number of bytes within 64 bits. -/
theorem bmod_bytes (hdepth : 1 ≤ depth) (hslots : depth * slotWidth ≤ Fault.addressable) :
    (depth * chunkSize).bmod (Nat.pow 2 64) = depth * chunkSize := by
  have hwords : (Nat.pow 2 64 : Nat) = 18446744073709551616 := by decide
  have hmemory : Fault.addressable = 281474976710656 := by decide
  simp only [slotWidth, chunkSize] at hslots ⊢
  rw [hwords]
  refine Int.bmod_eq_of_le ?_ ?_ <;> omega

/-- A pool of chunks fits into memory exactly if its bytes do. -/
theorem checkRoom_chunks (hdepth : 1 ≤ depth) :
    checkRoom depth chunkSize =
      if depth * chunkSize ≤ Fault.addressable then .ok () else .error .allocation := by
  have hpositive : 0 ≤ depth * chunkSize := Int.mul_nonneg (by omega) (by decide)
  unfold checkRoom
  by_cases hslots : depth * slotWidth ≤ Fault.addressable
  · rw [Fault.checkAllocation_of_fits (by omega) hslots]
    simp only [bind, Except.bind, bmod_bytes hdepth hslots]
    by_cases hbytes : depth * chunkSize ≤ Fault.addressable
    · rw [Fault.checkAllocation_of_fits hpositive (by omega), if_pos hbytes]
      simp only [ne_eq, not_true, if_false]
      rfl
    · rw [Fault.checkAllocation_of_exceeds (by omega), if_neg hbytes]
  · -- A slot is smaller than a chunk, so the chunks do not fit either.
    have hbytes : ¬ depth * chunkSize ≤ Fault.addressable := by
      simp only [slotWidth, chunkSize] at hslots ⊢
      omega
    rw [Fault.checkAllocation_of_exceeds (by omega), if_neg hbytes]
    rfl

end Pool

/-! ## The parts of a pipeline -/

namespace Device

variable {cores depth : Int}

/-- A device can be built around every pool that fits into memory. -/
theorem create_of_fits (source : Source) (hlow : 1 ≤ cores) (hhigh : cores ≤ maxCores)
    (hdepth : 1 ≤ depth) (hfits : depth * chunkSize ≤ Fault.addressable) :
    ∃ d, create source cores depth = .ok d := by
  have hroom : Pool.checkRoom depth chunkSize = .ok () := by
    rw [Pool.checkRoom_chunks hdepth, if_pos hfits]
  obtain ⟨pool, hpool⟩ := Pool.create_ok hdepth (by decide) hroom
  obtain ⟨-, -, hpool_eq⟩ := Pool.create_eq_ok hpool
  obtain ⟨s, -, hexchange⟩ := Exchange.create_ok hlow hhigh
  have hassembler : Assembler.create pool cores = .ok { cores } := by
    rw [hpool_eq]
    rfl
  simp only [create, if_neg (show ¬ depth < 1 by omega), hpool, hexchange, hassembler, bind,
    Except.bind]
  exact ⟨_, rfl⟩

/-- A device whose pool does not fit into memory is not built. -/
theorem create_of_exceeds (source : Source) (hdepth : 1 ≤ depth)
    (hexceeds : Fault.addressable < depth * chunkSize) :
    create source cores depth = .error .allocation := by
  have hroom : Pool.checkRoom depth chunkSize = .error .allocation := by
    rw [Pool.checkRoom_chunks hdepth, if_neg (by omega)]
  have hpool : Pool.create depth chunkSize = .error .allocation := by
    simp only [Pool.create, if_neg (show ¬ depth < 1 by omega),
      if_neg (show ¬ (chunkSize : Int) < 1 by decide), hroom, bind, Except.bind]
  simp only [create, if_neg (show ¬ depth < 1 by omega), hpool, bind, Except.bind]

end Device

namespace Pipeline

variable {cores depth : Int} {golden : Option Golden}

theorem create_of_fits (source : Source) (limit : UInt64) (level : String) (hlow : 1 ≤ cores)
    (hhigh : cores ≤ maxCores) (hdepth : 1 ≤ depth)
    (hfits : depth * chunkSize ≤ Fault.addressable)
    (hgolden : ∀ g, golden = some g → g.Fresh cores.toNat) :
    ∃ p, create source cores depth golden limit level = .ok p := by
  obtain ⟨device, hdevice⟩ := Device.create_of_fits source hlow hhigh hdepth hfits
  obtain ⟨checker, hchecker, -⟩ := Checker.create_at hlow hhigh hgolden
  obtain ⟨run, hrun, -⟩ := Run.create_at hlow hhigh limit (Trace.create level)
  simp only [create, hdevice, hchecker, hrun, bind, Except.bind]
  exact ⟨_, rfl⟩

theorem create_of_exceeds (source : Source) (limit : UInt64) (level : String) (hdepth : 1 ≤ depth)
    (hexceeds : Fault.addressable < depth * chunkSize) :
    create source cores depth golden limit level = .error .allocation := by
  simp only [create, Device.create_of_exceeds source hdepth hexceeds, bind, Except.bind]

end Pipeline

/-! ## The whole construction -/

namespace Supervisor

variable {config : Config} {cores : Int}

/-- The lanes of a golden trace can be made for every number of cores within the limits. -/
theorem openReference_answers (files : Files) (path : String) (hlow : 1 ≤ cores)
    (hhigh : cores ≤ maxCores) : ∃ answer, openReference files path cores = .ok answer := by
  have hlanes := Fault.checkAllocation_cores hlow hhigh (show Golden.laneWidth ≤ 1024 by decide)
  unfold openReference
  split
  · exact ⟨_, rfl⟩
  · split
    · exact ⟨_, rfl⟩
    · simp only [Golden.load, Golden.empty, hlanes, bind, Except.bind, pure, Except.pure]
      split
      · exact ⟨_, rfl⟩
      · split
        · exact ⟨_, rfl⟩
        · exact ⟨_, rfl⟩

theorem referenceOf_answers (files : Files) (known : Bool) (hlow : 1 ≤ config.cores)
    (hhigh : config.cores ≤ maxCores) : ∃ answer, referenceOf files config known = .ok answer := by
  unfold referenceOf
  split
  · exact ⟨_, rfl⟩
  · obtain ⟨answer, hanswer⟩ := openReference_answers files config.diff hlow hhigh
    simp only [hanswer, bind, Except.bind]
    split
    · exact ⟨_, rfl⟩
    · exact ⟨_, rfl⟩

/-- For a configuration that passes its checks no part of the pipeline is built with impossible
parameters, and no number of bytes wraps.  What remains is the size of the pool: if its chunks
fit into memory there is a pipeline, and if they do not the construction stops with a fault. -/
theorem prepare_of_validate (files : Files) (config : Config) (known : Bool)
    (hvalid : config.validate = .ok ()) :
    (∃ answer, referenceOf files config known = .ok answer) ∧
    (config.poolDepth * Pool.slotWidth ≤ Fault.addressable →
      (config.poolDepth * chunkSize).bmod (Nat.pow 2 64) = config.poolDepth * chunkSize) ∧
    ∀ source notes golden, openDevice files config.image = .ok (source, notes) →
      referenceOf files config known = .ok (.ok golden) →
      (config.poolDepth * chunkSize ≤ Fault.addressable →
        ∃ p, prepare files config known = .ok (.ok p)) ∧
      (Fault.addressable < config.poolDepth * chunkSize →
        prepare files config known = .error .allocation) := by
  obtain ⟨hlow, hmax, hdepth, -⟩ := Config.bounds_of_validate hvalid
  have hhigh : config.cores ≤ maxCores := hmax
  refine ⟨referenceOf_answers files known hlow hhigh, Pool.bmod_bytes (by omega), ?_⟩
  intro source notes golden hopen hgolden
  constructor
  · intro hfits
    have hfresh : ∀ g, golden = some g → g.Fresh config.cores.toNat := by
      intro g hg
      rw [hg] at hgolden
      exact fresh_of_referenceOf hgolden
    obtain ⟨p, hp⟩ := Pipeline.create_of_fits source config.maxInstrs config.traceLevel hlow hhigh
      (by omega) hfits hfresh
    simp only [prepare, hopen, hgolden, hp, bind, Except.bind]
    exact ⟨_, rfl⟩
  · intro hexceeds
    have hfault : Pipeline.create source config.cores config.poolDepth golden config.maxInstrs
        config.traceLevel = .error .allocation :=
      Pipeline.create_of_exceeds _ _ _ (by omega) hexceeds
    simp only [prepare, hopen, hgolden, hfault, bind, Except.bind]

/-- The greatest depth that fits with one core and a golden trace gives a pipeline; one more
chunk is too many. -/
theorem prepare_of_validate_greatest :
    let files : Files :=
      { entries := [(["image"], .regular []), (["golden"], .regular (CoreState.encodeChunk 0 {}))] }
    let config : Config :=
      { image := "image", diff := "golden", cores := 1, poolDepth := 947727194311 }
    (∃ p, prepare files config true = .ok (.ok p)) ∧
      prepare files { config with poolDepth := 947727194312 } true = .error .allocation := by
  intro files config
  have hfind : files.find config.image = .ok (.regular []) := by decide +kernel
  obtain ⟨notes, hopen⟩ := openDevice_regular hfind
  have hgolden : referenceOf files config true =
      .ok (.ok (some { lanes := #[{ records := #[{}] }] })) := by
    decide +kernel
  obtain ⟨-, -, hfits⟩ := prepare_of_validate files config true (by decide)
  obtain ⟨-, -, hexceeds⟩ :=
    prepare_of_validate files { config with poolDepth := 947727194312 } true (by decide)
  exact ⟨(hfits _ notes _ hopen hgolden).1 (by decide),
    (hexceeds _ notes _ hopen hgolden).2 (by decide)⟩

/-- A depth that passes the checks and does not fit: the image opens, and building the pipeline
ends in a fault. -/
theorem validate_admits_fault :
    let image := CoreState.encodeChunk 0
      { trap := { hasTrap := true, pc := 16, cycles := 6, instrs := 3 } }
    let files : Files := { entries := [(["hw.bin"], .regular image)] }
    let config : Config := { image := "hw.bin", noDiff := true, poolDepth := 4611686018427387904 }
    config.validate = .ok () ∧
      (∃ notes, openDevice files config.image =
        .ok ({ queue := image, tail := .ended .finished }, notes)) ∧
      referenceOf files config true = .ok (.ok none) ∧
      prepare files config true = .error .allocation := by
  intro image files config
  have hfind : files.find config.image = .ok (.regular image) := by decide +kernel
  have hopen := openDevice_regular hfind
  have hgolden : referenceOf files config true = .ok (.ok none) := rfl
  refine ⟨by decide, hopen, hgolden, ?_⟩
  obtain ⟨notes, hopen⟩ := hopen
  simp only [prepare, hopen, hgolden, bind, Except.bind]
  rw [Pipeline.create_of_exceeds _ _ _ (by decide) (by decide)]

end Supervisor

end Cosim
