import Cosim.CommandLine
import Cosim.Proofs.Numerals
import Cosim.Proofs.Workers

/-!
# How a configuration is layered

A configuration comes from the defaults, a file and the command line.  Each layer is a list of
settings, and what counts of a field is its last setting in the uppermost layer that has one.

* `Config.get_overlay` says so of one layer over a configuration.
* `Config.copyFlag_eq` says that a setting survives being shown by its flag and read again, for
  every text, truth value and word, and for every integer of 64 bits.
* `Flag.parse_reads` says that the values of a command line were read by its flags, so that
  their integers fit into 64 bits.
* `Config.resolve_resolution` puts the layers together: only the check can refuse them.
-/

namespace Cosim

/-- The fields of a configuration. -/
inductive Field where
  | image | diff | noDiff | maxInstrs | cores | poolDepth | stepBatch | flash | sdcard
  | traceLevel | report | log | statsview
deriving DecidableEq, Repr

namespace Setting

/-- The field that a setting is about. -/
def field : Setting → Field
  | .image _ => .image
  | .diff _ => .diff
  | .noDiff _ => .noDiff
  | .maxInstrs _ => .maxInstrs
  | .cores _ => .cores
  | .poolDepth _ => .poolDepth
  | .stepBatch _ => .stepBatch
  | .flash _ => .flash
  | .sdcard _ => .sdcard
  | .traceLevel _ => .traceLevel
  | .report _ => .report
  | .log _ => .log
  | .statsview _ => .statsview

/-- The last setting of a field in a layer. -/
def last (field : Field) (layer : List Setting) : Option Setting :=
  (layer.filter (·.field = field)).getLast?

/-- An integer fits into 64 bits. -/
def Fits : Setting → Prop
  | .cores n | .poolDepth n | .stepBatch n => -(Nat.pow 2 63 : Nat) ≤ n ∧ n < (Nat.pow 2 63 : Nat)
  | _ => True

theorem last_cons (field : Field) (s : Setting) (layer : List Setting) :
    last field (s :: layer) =
      if s.field = field then some ((last field layer).getD s) else last field layer := by
  unfold last
  by_cases hfield : s.field = field
  · rw [List.filter_cons_of_pos (by simpa using hfield), List.getLast?_cons, if_pos hfield]
  · rw [List.filter_cons_of_neg (by simpa using hfield), if_neg hfield]

/-- Every flag is for a field of its own. -/
theorem flagName_eq_iff (s t : Setting) : s.flagName = t.flagName ↔ s.field = t.field := by
  cases s <;> cases t <;> simp [flagName, field]

end Setting

namespace Flag

variable {α : Type}

/-! ## Values that are shown and read again -/

theorem readInt_repr {n : Int} (hlow : -(Nat.pow 2 63 : Nat) ≤ n)
    (hhigh : n < (Nat.pow 2 63 : Nat)) (make : Int → α) : readInt make n.repr = .ok (make n) := by
  rw [readInt, ← Int.toString_eq_repr, Numeral.signedMarked_repr hlow hhigh]

theorem readHex_hex (w : UInt64) (make : UInt64 → α) :
    readHex make (Text.hex w) = .ok (make w) := by
  rw [readHex, Hex.parseSetting_hex]
  rfl

theorem readBool_shown (b : Bool) (make : Bool → α) :
    readBool make (if b then "true" else "false") = .ok (make b) := by
  cases b with
  | false => simp [readBool]
  | true => simp [readBool]

/-! ## Values of a command line -/

/-- Every value that a flag reads has a property. -/
def Reads (P : α → Prop) (f : Flag α) : Prop :=
  ∀ text value, f.read text = .ok value → P value

section Readers

variable {P : α → Prop} {name : String} {letter : Option Char} {implied : Option String}

theorem reads_text {make : String → α} (hmake : ∀ text, P (make text)) :
    Reads P { name, letter, implied, read := readText make } := by
  rintro text value hread
  cases hread
  exact hmake text

theorem reads_int {make : Int → α}
    (hmake : ∀ n : Int, -(Nat.pow 2 63 : Nat) ≤ n → n < (Nat.pow 2 63 : Nat) → P (make n)) :
    Reads P { name, letter, implied, read := readInt make } := by
  rintro text value hread
  dsimp only [readInt] at hread
  split at hread
  · rename_i n hn
    cases hread
    obtain ⟨hlow, hhigh⟩ := Numeral.signedMarked_bounds hn
    exact hmake n hlow hhigh
  · cases hread

theorem reads_bool {make : Bool → α} (hmake : ∀ b, P (make b)) :
    Reads P { name, letter, implied, read := readBool make } := by
  rintro text value hread
  dsimp only [readBool] at hread
  split at hread
  · cases hread
    exact hmake true
  · split at hread
    · cases hread
      exact hmake false
    · cases hread

theorem reads_hex {make : UInt64 → α} (hmake : ∀ w, P (make w)) :
    Reads P { name, letter, implied, read := readHex make } := by
  rintro text value hread
  dsimp only [readHex] at hread
  cases hparse : Hex.parseSetting text with
  | error e =>
    rw [hparse] at hread
    cases hread
  | ok w =>
    rw [hparse] at hread
    cases hread
    exact hmake w

end Readers

variable {flags : List (Flag α)} {P : α → Prop}

theorem Reads.readValue {f : Flag α} (hf : f.Reads P) {text : String} {value : α}
    (hread : f.readValue text = .ok value) : P value := by
  unfold Flag.readValue at hread
  split at hread
  · rename_i heq
    cases hread
    exact hf text _ heq
  · cases hread

theorem parseLong_reads (hflags : ∀ f ∈ flags, f.Reads P) {given : String}
    {args rest : List String} {value : α}
    (hparse : parseLong flags given args = .ok (value, rest)) : P value := by
  dsimp only [parseLong] at hparse
  split at hparse
  · cases hparse
  · split at hparse
    · cases hparse
    · rename_i f hfind
      have hf : f.Reads P := hflags f (List.mem_of_find?_eq_some hfind)
      split at hparse
      case h_4 => cases hparse
      all_goals
        obtain ⟨a, hread, hparse⟩ := bind_eq_ok hparse
        cases hparse
        exact hf.readValue hread

theorem parseLetters_reads (hflags : ∀ f ∈ flags, f.Reads P) {letters : List Char}
    {args rest : List String} {values : List α}
    (hparse : parseLetters flags letters args = .ok (values, rest)) :
    ∀ value ∈ values, P value := by
  induction letters generalizing args values rest with
  | nil =>
    cases hparse
    simp
  | cons c letters ih =>
    unfold parseLetters at hparse
    split at hparse
    · cases hparse
      simp
    · dsimp only at hparse
      split at hparse
      · cases hparse
      · rename_i f hfind
        have hf : f.Reads P := hflags f (List.mem_of_find?_eq_some hfind)
        split at hparse
        case h_2 =>
          obtain ⟨a, hread, hparse⟩ := bind_eq_ok hparse
          obtain ⟨⟨more, args⟩, hmore, hparse⟩ := bind_eq_ok hparse
          cases hparse
          exact List.forall_mem_cons.mpr ⟨hf.readValue hread, ih hmore⟩
        case h_5 => cases hparse
        all_goals
          obtain ⟨a, hread, hparse⟩ := bind_eq_ok hparse
          cases hparse
          exact List.forall_mem_singleton.mpr (hf.readValue hread)

theorem parseFrom_reads (hflags : ∀ f ∈ flags, f.Reads P) {p parsed : Parsed α} {fuel : Nat}
    {args : List String} (hp : ∀ value ∈ p.values, P value)
    (hparse : parseFrom flags p fuel args = .ok parsed) : ∀ value ∈ parsed.values, P value := by
  induction fuel generalizing p args with
  | zero =>
    cases hparse
    exact hp
  | succ fuel ih =>
    cases args with
    | nil =>
      cases hparse
      exact hp
    | cons arg args =>
      unfold parseFrom at hparse
      split at hparse
      · cases hparse
        exact hp
      · obtain ⟨⟨a, rest⟩, hlong, hparse⟩ := bind_eq_ok hparse
        refine ih ?_ hparse
        exact List.forall_mem_append.mpr
          ⟨hp, List.forall_mem_singleton.mpr (parseLong_reads hflags hlong)⟩
      · obtain ⟨⟨more, rest⟩, hletters, hparse⟩ := bind_eq_ok hparse
        refine ih ?_ hparse
        exact List.forall_mem_append.mpr ⟨hp, parseLetters_reads hflags hletters⟩
      · refine ih ?_ hparse
        exact hp

/-- What holds of all that the flags read holds of all values of a command line. -/
theorem parse_reads (hflags : ∀ f ∈ flags, f.Reads P) {args : List String} {parsed : Parsed α}
    (hparse : parse flags args = .ok parsed) : ∀ value ∈ parsed.values, P value :=
  parseFrom_reads hflags (by simp) hparse

end Flag

namespace Config

/-! ## Layers -/

/-- The setting that a configuration has for a field. -/
def get (c : Config) : Field → Setting
  | .image => .image c.image
  | .diff => .diff c.diff
  | .noDiff => .noDiff c.noDiff
  | .maxInstrs => .maxInstrs c.maxInstrs
  | .cores => .cores c.cores
  | .poolDepth => .poolDepth c.poolDepth
  | .stepBatch => .stepBatch c.stepBatch
  | .flash => .flash c.flash
  | .sdcard => .sdcard c.sdcard
  | .traceLevel => .traceLevel c.traceLevel
  | .report => .report c.report
  | .log => .log c.log
  | .statsview => .statsview c.statsview

theorem get_set (c : Config) (s : Setting) (field : Field) :
    (c.set s).get field = if s.field = field then s else c.get field := by
  cases s <;> cases field <;> rfl

/-- The last setting of a layer counts. -/
theorem get_overlay (c : Config) (layer : List Setting) (field : Field) :
    (c.overlay layer).get field = (Setting.last field layer).getD (c.get field) := by
  induction layer generalizing c with
  | nil => rfl
  | cons s layer ih =>
    have hrest : (c.overlay (s :: layer)).get field = ((c.set s).overlay layer).get field := rfl
    rw [hrest, ih, get_set, Setting.last_cons]
    split
    · rfl
    · rfl

/-- Dropping what is given again makes no difference to what is given last. -/
theorem last_lastGiven (field : Field) (layer : List Setting) :
    Setting.last field (lastGiven layer) = Setting.last field layer := by
  induction layer with
  | nil => rfl
  | cons s layer ih =>
    unfold lastGiven
    split
    · rename_i hagain
      obtain ⟨t, ht, hname⟩ := List.any_eq_true.mp hagain
      rw [beq_iff_eq, Setting.flagName_eq_iff] at hname
      rw [ih, Setting.last_cons]
      split
      · rename_i hfield
        have hmem : t ∈ layer.filter (·.field = field) := by
          simpa [ht] using hname.trans hfield
        cases hlast : Setting.last field layer with
        | none =>
          rw [Setting.last, List.getLast?_eq_none_iff] at hlast
          simp [hlast] at hmem
        | some u => rfl
      · rfl
    · rw [Setting.last_cons, Setting.last_cons, ih]

/-! ## Copies -/

/-- A setting is read from what its flag shows. -/
theorem exists_flag {s : Setting} (hfits : s.Fits) :
    ∃ f, flags.find? (·.name == s.flagName) = some f ∧ f.read s.shown = .ok (.setting s) := by
  cases s with
  | noDiff value =>
    simp [flags, textFlag, intFlag, Setting.flagName, Setting.shown, Flag.readBool_shown]
  | maxInstrs value =>
    simp [flags, textFlag, intFlag, Setting.flagName, Setting.shown, Flag.readHex_hex]
  | cores value | poolDepth value | stepBatch value =>
    simp [flags, textFlag, intFlag, Setting.flagName, Setting.shown,
      Flag.readInt_repr hfits.1 hfits.2]
  | image value | diff value | flash value | sdcard value | traceLevel value | report value
  | log value | statsview value =>
    simp [flags, textFlag, intFlag, Setting.flagName, Setting.shown, Flag.readText]

/-- A setting survives being shown and read again. -/
theorem copyFlag_eq (c : Config) {s : Setting} (hfits : s.Fits) : copyFlag c s = .ok (c.set s) := by
  obtain ⟨f, hfind, hread⟩ := exists_flag hfits
  simp only [copyFlag, hfind, hread]

theorem foldlM_copyFlag (c : Config) {layer : List Setting} (hfits : ∀ s ∈ layer, s.Fits) :
    layer.foldlM copyFlag c = .ok (c.overlay layer) := by
  induction layer generalizing c with
  | nil => rfl
  | cons s layer ih =>
    rw [List.foldlM_cons, copyFlag_eq c (hfits s List.mem_cons_self)]
    exact ih (c.set s) fun t ht => hfits t (List.mem_cons_of_mem s ht)

/-! ## Settings of the command line -/

/-- An integer that a flag gives fits into 64 bits. -/
def RunFlag.Fits : RunFlag → Prop
  | .setting s => s.Fits
  | _ => True

/-- No flag of a run gives an integer that is wider than 64 bits. -/
theorem flags_fit : ∀ f ∈ CommandLine.helpFlag :: flags, f.Reads RunFlag.Fits := by
  have htext (make : String → Setting) (name : String) (letter : Option Char)
      (hmake : ∀ text, (make text).Fits) : (textFlag name make letter).Reads RunFlag.Fits :=
    Flag.reads_text hmake
  simp only [flags, List.forall_mem_cons]
  refine ⟨Flag.reads_bool fun _ => trivial, htext _ _ _ fun _ => trivial,
    htext _ _ _ fun _ => trivial, Flag.reads_bool fun _ => trivial, Flag.reads_hex fun _ => trivial,
    Flag.reads_int fun _ => .intro, Flag.reads_int fun _ => .intro, Flag.reads_int fun _ => .intro,
    htext _ _ _ fun _ => trivial, htext _ _ _ fun _ => trivial, htext _ _ _ fun _ => trivial,
    htext _ _ _ fun _ => trivial, htext _ _ _ fun _ => trivial, htext _ _ _ fun _ => trivial,
    Flag.reads_text fun _ => trivial, by simp⟩

theorem settingsOf_fits {offered : List (Flag RunFlag)}
    (hoffered : offered ⊆ CommandLine.helpFlag :: flags) {args : List String}
    {parsed : Flag.Parsed RunFlag} (hparse : Flag.parse offered args = .ok parsed) :
    ∀ s ∈ settingsOf parsed.values, s.Fits := by
  intro s hs
  obtain ⟨value, hvalue, hsetting⟩ := List.mem_filterMap.mp hs
  have hreads : ∀ f ∈ offered, f.Reads RunFlag.Fits := fun f hf => flags_fit f (hoffered hf)
  have hfits : value.Fits := Flag.parse_reads hreads hparse value hvalue
  cases value with
  | setting t =>
    cases hsetting
    exact hfits
  | file path => cases hsetting
  | help wanted => cases hsetting

/-! ## The whole configuration -/

theorem mem_of_mem_lastGiven {s : Setting} {layer : List Setting} (hs : s ∈ lastGiven layer) :
    s ∈ layer := by
  induction layer with
  | nil => exact hs
  | cons t layer ih =>
    unfold lastGiven at hs
    split at hs
    · exact List.mem_cons_of_mem t (ih hs)
    · rcases List.mem_cons.mp hs with rfl | hs
      · exact List.mem_cons_self
      · exact List.mem_cons_of_mem t (ih hs)

/-- The setting of a field in the uppermost layer that has one. -/
def uppermost (file flags : List Setting) (field : Field) : Setting :=
  ((Setting.last field flags).or (Setting.last field file)).getD (({} : Config).get field)

/-- The settings of a command line lie over those of a file. -/
structure Resolution (file flags : List Setting) (outcome : Except Error Config)
    (layered filled : Config) : Prop where
  layers : ∀ field, layered.get field = uppermost file flags field
  /-- A depth of zero gives way to one more than the cores, in whatever layers they are. -/
  depth : filled = if layered.poolDepth = 0 then
    { layered with poolDepth := (layered.cores + 1).bmod (Nat.pow 2 64) } else layered
  accepted : ∀ c, outcome = .ok c ↔ c = filled ∧ filled.validate = .ok ()
  refused : ∀ e, outcome = .error e ↔ filled.validate = .error e
  bounds : filled.validate = .ok () →
    1 ≤ filled.cores ∧ filled.cores ≤ 64 ∧ filled.cores + 1 ≤ filled.poolDepth ∧
      1 ≤ filled.stepBatch

theorem get_layered (file flags : List Setting) (field : Field) :
    ((({} : Config).overlay file).overlay (lastGiven flags)).get field =
      uppermost file flags field := by
  rw [get_overlay, get_overlay, last_lastGiven, uppermost]
  cases Setting.last field flags with
  | none => rfl
  | some s => rfl

/-- What can be relied on where no problem is found. -/
theorem bounds_of_validate {c : Config} (hvalid : c.validate = .ok ()) :
    1 ≤ c.cores ∧ c.cores ≤ 64 ∧ c.cores + 1 ≤ c.poolDepth ∧ 1 ≤ c.stepBatch := by
  unfold validate problem? at hvalid
  -- A configuration that passes fails each of the tests for a problem.
  by_cases himage : c.image = ""
  · simp [himage] at hvalid
  · by_cases hcores : c.cores < 1 ∨ maxCores < c.cores
    · simp [himage, hcores] at hvalid
    · by_cases hdepth : c.poolDepth < c.cores + 1
      · simp [himage, hcores, hdepth] at hvalid
      · by_cases hbatch : c.stepBatch < 1
        · simp [himage, hcores, hdepth, hbatch] at hvalid
        · have hmax : maxCores = 64 := rfl
          omega

/-- A configuration that is checked is returned just if it passes. -/
theorem checked_eq_ok_iff {c d : Config} :
    (do c.validate; return c : Except Error Config) = .ok d ↔ d = c ∧ c.validate = .ok () := by
  cases c.validate with
  | error e => exact ⟨nofun, fun h => nomatch h.2⟩
  | ok u =>
    constructor
    · intro h
      cases h
      exact ⟨rfl, rfl⟩
    · rintro ⟨rfl, -⟩
      rfl

theorem checked_eq_error_iff {c : Config} {e : Error} :
    (do c.validate; return c : Except Error Config) = .error e ↔ c.validate = .error e := by
  cases c.validate with
  | error e' =>
    constructor
    · intro h
      cases h
      rfl
    · intro h
      cases h
      rfl
  | ok u => exact ⟨nofun, nofun⟩

/-- Flags that fit are copied without a loss, so that only the check can refuse. -/
theorem resolve_resolution (file : List Setting) {flags : List Setting}
    (hfits : ∀ s ∈ flags, s.Fits) :
    ∃ layered filled, Resolution file flags (resolve file flags) layered filled := by
  have hcopy : (lastGiven flags).foldlM copyFlag (({} : Config).overlay file) =
      .ok ((({} : Config).overlay file).overlay (lastGiven flags)) :=
    foldlM_copyFlag _ fun s hs => hfits s (mem_of_mem_lastGiven hs)
  have hlayers := get_layered file flags
  generalize (({} : Config).overlay file).overlay (lastGiven flags) = layered at hcopy hlayers
  have hresolve : resolve file flags =
      (do layered.fillPoolDepth.validate; return layered.fillPoolDepth) := by
    rw [resolve, hcopy]
    rfl
  refine ⟨layered, layered.fillPoolDepth, hlayers, rfl, ?_, ?_, bounds_of_validate⟩
  · intro c
    rw [hresolve, checked_eq_ok_iff]
  · intro e
    rw [hresolve, checked_eq_error_iff]

end Config

namespace CommandLine

/-- The configuration of a command line takes each field from the uppermost layer that has it, and
is refused only by the check.  A setting is copied from its flag as it is. -/
theorem config_layered :
    (∀ (c : Config) (s : Setting), s.Fits → Config.copyFlag c s = .ok (c.set s)) ∧
    ∀ (files : Files) (offered : List (Flag Config.RunFlag)) (args : List String)
      (parsed : Flag.Parsed Config.RunFlag) (file : List Setting),
      offered ⊆ helpFlag :: Config.flags →
      Flag.parse offered args = .ok parsed →
      fileSettings files (Config.fileOf parsed.values) = .ok file →
      (∀ s ∈ Config.settingsOf parsed.values, s.Fits) ∧
      (Config.fileOf parsed.values = "" → file = []) ∧
      ∃ layered filled, Config.Resolution file (Config.settingsOf parsed.values)
        (configOf files parsed.values) layered filled := by
  refine ⟨fun c s hfits => Config.copyFlag_eq c hfits, ?_⟩
  intro files offered args parsed file hoffered hparse hfile
  have hfits := Config.settingsOf_fits hoffered hparse
  have hconfig : configOf files parsed.values =
      Config.resolve file (Config.settingsOf parsed.values) := by
    rw [configOf, hfile]
    rfl
  refine ⟨hfits, ?_, ?_⟩
  · intro hnone
    rw [fileSettings, if_pos hnone] at hfile
    cases hfile
    rfl
  · rw [hconfig]
    exact Config.resolve_resolution file hfits

/-- One core on the command line counts more than four in the file, though one is the default, and
the depth of the pool goes by it.  The least integer is copied as it is. -/
theorem config_layered_over_file :
    Config.copyFlag {} (.cores (-9223372036854775808)) =
      .ok { cores := -9223372036854775808 } ∧
    ∃ (files : Files) (parsed : Flag.Parsed Config.RunFlag) (file : List Setting)
      (layered c : Config),
      Flag.parse (helpFlag :: Config.flags)
        ["--cores=0x3", "--config", "run.yaml", "--max-instrs", "ff", "--cores=1"] = .ok parsed ∧
      fileSettings files (Config.fileOf parsed.values) = .ok file ∧
      file = [.cores 4, .stepBatch 8] ∧
      c = { maxInstrs := 255, cores := 1, poolDepth := 2, stepBatch := 8 } ∧
      configOf files parsed.values = .ok c ∧
      Config.Resolution file (Config.settingsOf parsed.values) (.ok c) layered c := by
  let files : Files :=
    { entries := [(["run.yaml"], .regular "cores: 4\nstep_batch: 8\n".toUTF8.toList)] }
  let parsed : Flag.Parsed Config.RunFlag :=
    { values := [.setting (.cores 3), .file "run.yaml", .setting (.maxInstrs 255),
        .setting (.cores 1)] }
  have hparse : Flag.parse (helpFlag :: Config.flags)
      ["--cores=0x3", "--config", "run.yaml", "--max-instrs", "ff", "--cores=1"] = .ok parsed := rfl
  have hfile : fileSettings files (Config.fileOf parsed.values) = .ok [.cores 4, .stepBatch 8] :=
    eq_ok_of_toOption (by decide +kernel)
  have hconfig : configOf files parsed.values =
      .ok { maxInstrs := 255, cores := 1, poolDepth := 2, stepBatch := 8 } :=
    eq_ok_of_toOption (by decide +kernel)
  obtain ⟨-, -, layered, filled, hresolved⟩ :=
    config_layered.2 files _ _ parsed _ (List.Subset.refl _) hparse hfile
  obtain ⟨rfl, -⟩ := (hresolved.accepted _).mp hconfig
  rw [hconfig] at hresolved
  refine ⟨config_layered.1 {} _ ?_, files, parsed, _, layered, _, hparse, hfile, rfl, rfl, hconfig,
    hresolved⟩
  exact ⟨by decide, by decide⟩

end CommandLine

end Cosim
