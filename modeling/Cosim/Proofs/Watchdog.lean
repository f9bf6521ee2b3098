import Cosim.Watchdog
import Mathlib.Data.List.Basic

/-!
# What the watchdog has flagged

A check goes over the cores in order and flags the ones that it finds above the
ceiling.  Each flag falls on a core that has none, and makes one trip.

* `Watchdog.check_keeps` is the induction that every statement about checks goes by:
  what each flag keeps, together with the trip that it makes, the whole check keeps.
* `Watchdog.Tallied` says that the count is the number of flagged cores, and
  `Watchdog.allTrapped_iff` what it means that the watchdog is through.
-/

namespace Cosim.Watchdog

variable {w : Watchdog} {core other : Nat} {event : TrapEvent}
  {events : Nat → Except Fault TrapEvent}

/-! ## Flags -/

@[simp] theorem limit_flag (w : Watchdog) (core : Nat) (event : TrapEvent) :
    (w.flag core event).limit = w.limit := rfl

@[simp] theorem count_flag (w : Watchdog) (core : Nat) (event : TrapEvent) :
    (w.flag core event).info.count = w.info.count + 1 := rfl

@[simp] theorem cores_flag (w : Watchdog) (core : Nat) (event : TrapEvent) :
    (w.flag core event).cores = w.cores := by
  simp [flag, cores]

/-- A flag marks its core and no other. -/
theorem isTrapped_flag (hcore : core < w.cores) :
    (w.flag core event).isTrapped other = (w.isTrapped other || other == core) := by
  unfold cores at hcore
  by_cases hsame : other = core
  · subst hsame
    simp [isTrapped, flag, Array.getD_eq_getD_getElem?, hcore]
  · simp [isTrapped, flag, Array.getD_eq_getD_getElem?, hsame,
      Array.getElem?_setIfInBounds_ne (Ne.symm hsame)]

/-! ## Sweeps -/

/-- What each flag keeps, together with the trip that it makes, a sweep keeps. -/
theorem sweep_keeps {P : Watchdog → List Trip → Prop}
    (hflag : ∀ w trips core event, P w trips → w.isTrapped core = false → core < w.cores →
      events core = .ok event → w.limit < event.instrs →
        P (w.flag core event) (trips ++ [{ core, event, cpi := event.cpi }]))
    {list : List Nat} (hlist : ∀ core ∈ list, core < w.cores) (before : List Trip)
    (h : P w before) :
    P (w.sweep events list).watchdog (before ++ (w.sweep events list).trips) := by
  fun_induction Watchdog.sweep w events list generalizing before with
  | case1 w => simpa using h
  | case2 w core rest htrapped ih => exact ih (fun c hc => hlist c (by simp [hc])) before h
  | case3 w core rest htrapped fault hfault => simpa using h
  | case4 w core rest htrapped event hevent hle s ih =>
    exact ih (fun c hc => hlist c (by simp [hc])) before h
  | case5 w core rest htrapped event hevent hle s ih =>
    have hflagged := hflag w before core event h (by simpa using htrapped)
      (hlist core (by simp)) hevent (UInt64.not_le.mp hle)
    have hrest : ∀ c ∈ rest, c < (w.flag core event).cores := by
      intro c hc
      rw [cores_flag]
      exact hlist c (by simp [hc])
    simpa using ih hrest _ hflagged

/-- The trips of a sweep come in the order of the cores. -/
theorem sweep_sublist (w : Watchdog) (events : Nat → Except Fault TrapEvent) (list : List Nat) :
    List.Sublist ((w.sweep events list).trips.map Trip.core) list := by
  fun_induction Watchdog.sweep w events list with
  | case1 => simp
  | case2 w core rest htrapped ih => exact ih.cons core
  | case3 => simp
  | case4 w core rest htrapped event hevent hle s ih => exact ih.cons core
  | case5 w core rest htrapped event hevent hle s ih => exact ih.cons_cons core

/-- A check is a sweep over all cores, if there is a ceiling. -/
theorem check_eq (hon : w.enabled = true) :
    w.check events = w.sweep events (List.range w.cores) := by
  simp [check, hon]

/-- What each flag keeps, together with the trip that it makes, a check keeps. -/
theorem check_keeps {P : Watchdog → List Trip → Prop}
    (hflag : ∀ w trips core event, P w trips → w.isTrapped core = false → core < w.cores →
      events core = .ok event → w.limit < event.instrs →
        P (w.flag core event) (trips ++ [{ core, event, cpi := event.cpi }]))
    (hon : w.enabled = true) (h : P w []) : P (w.check events).watchdog (w.check events).trips := by
  rw [check_eq hon]
  exact sweep_keeps hflag (by simp) [] h

/-- A check changes neither the ceiling nor the number of cores. -/
theorem limit_check (hon : w.enabled = true) :
    (w.check events).watchdog.limit = w.limit ∧ (w.check events).watchdog.cores = w.cores := by
  refine check_keeps (P := fun v _ => v.limit = w.limit ∧ v.cores = w.cores) ?_ hon ⟨rfl, rfl⟩
  intro v trips core event hv _ _ _ _
  rw [limit_flag, cores_flag]
  exact hv

/-! ## The count -/

/-- The count is the number of flagged cores. -/
def Tallied (w : Watchdog) : Prop := w.info.count = w.info.trapped.toList.count true

theorem Tallied.flag (h : w.Tallied) (hfree : w.isTrapped core = false) (hcore : core < w.cores) :
    (w.flag core event).Tallied := by
  unfold Tallied at *
  have hget : w.info.trapped.toList[core]? = some false := by
    unfold cores at hcore
    rw [Array.getElem?_toList, Array.getElem?_eq_getElem hcore]
    simpa [isTrapped, Array.getD_eq_getD_getElem?, hcore] using hfree
  obtain ⟨hlt, hfalse⟩ := List.getElem?_eq_some_iff.mp hget
  simp only [Watchdog.flag, Array.set!_eq_setIfInBounds, Array.toList_setIfInBounds, h]
  rw [List.count_set hlt, hfalse]
  simp

/-- Every core has crossed the ceiling when there is one and all cores are flagged. -/
theorem allTrapped_iff (h : w.Tallied) :
    w.allTrapped = true ↔ w.enabled = true ∧ ∀ core < w.cores, w.isTrapped core = true := by
  have hcount : w.info.count = w.cores ↔ ∀ core < w.cores, w.isTrapped core = true := by
    rw [h, cores, ← Array.length_toList, Int.natCast_inj, List.count_eq_length]
    constructor
    · intro hall core hcore
      rw [Array.length_toList] at hcore
      have := hall w.info.trapped[core] (by simp)
      simp [isTrapped, Array.getD_eq_getD_getElem?, hcore, ← this]
    · intro hall b hb
      obtain ⟨core, hcore, rfl⟩ := List.mem_iff_getElem.mp hb
      have hflag := hall core hcore
      rw [Array.length_toList] at hcore
      simpa [isTrapped, Array.getD_eq_getD_getElem?, hcore] using hflag.symm
  simp [allTrapped, hcount]

theorem Tallied.check (h : w.Tallied) (hon : w.enabled = true) :
    (w.check events).watchdog.Tallied := by
  refine check_keeps (P := fun v _ => v.Tallied) ?_ hon h
  intro v trips core event hv hfree hcore _ _
  exact hv.flag hfree hcore

theorem tallied_create {limit : UInt64} {cores : Int} (hcreate : create limit cores = .ok w) :
    w.Tallied ∧ w.limit = limit ∧ 1 ≤ cores ∧ w.cores = cores.toNat ∧
      w.info.cpi.size = w.cores ∧ ∀ core, w.isTrapped core = false := by
  unfold create at hcreate
  split at hcreate
  · cases hcreate
  · rename_i hlow
    cases hroom : Fault.checkAllocation cores cpiWidth with
    | error fault => simp [hroom, bind, Except.bind] at hcreate
    | ok _ =>
      simp only [hroom, bind, Except.bind, pure, Except.pure, Except.ok.injEq] at hcreate
      subst hcreate
      refine ⟨?_, rfl, by omega, by simp [Watchdog.cores], by simp [Watchdog.cores], fun core => ?_⟩
      · simp [Tallied, List.count_replicate]
      · simp only [isTrapped, Array.getD_eq_getD_getElem?, Array.getElem?_replicate]
        split <;> rfl

end Cosim.Watchdog
