import Eos.Lib.LeadsTo
import Eos.Lib.Refine
import Eos.Model.Spinlock

/-!
# The spinlock

The key is what a monitor tells: a core that has loaded a free lock and still has its monitor finds
the lock free when it stores (`SpinInv.fresh`).  So at most one core is in a section, sections come
one after the other, and the interrupts of their cores are masked (`spinlock_serializes`).  A free
lock that some core waits for is taken (`spinlock_taken`).
-/

set_option autoImplicit false

namespace Eos.Analysis

open Eos.Lib (Reach Exclusive LeadsTo Recurs)
open Eos.Model

variable {C D : Type} [DecidableEq C] {update : C → D → D} {s start : SpinSystem C D} {c d : C}

/-- The core has the lock: its store-exclusive has had success, and it has not unlocked yet. -/
def HasLock (core : SpinCore D) : Prop :=
  match core.point with
  | .check => core.loaded = 0 ∧ core.status = 0
  | .read | .write | .unlock => True
  | _ => False

/-- The core is between its load and its store. -/
def Trying (core : SpinCore D) : Prop :=
  match core.point with
  | .test | .store => True
  | _ => False

/-- The mask of a core: as at the start, or interrupts are masked and it is kept. -/
def MaskKept (start : SpinSystem C D) (c : C) (core : SpinCore D) : Prop :=
  if core.point = .idle then core.masked = (start.core c).masked
  else core.masked = true ∧ core.flag = (start.core c).masked

/-- What every event keeps. -/
structure SpinInv (update : C → D → D) (start s : SpinSystem C D) : Prop where
  /-- at most one core is in a section -/
  excl : ∀ c d, HasLock (s.core c) → HasLock (s.core d) → c = d
  /-- the lock is free, or a core is in a section -/
  value : s.lock.value = spinlockUnlocked ∨ ∃ c, HasLock (s.core c)
  locked : ∀ c, HasLock (s.core c) → s.lock.value = spinlockLocked
  /-- a core that has loaded a free lock and still has its monitor finds it free -/
  fresh : ∀ c, Trying (s.core c) → (s.core c).loaded = 0 → s.lock.monitor c = true →
    s.lock.value = spinlockUnlocked
  loaded : ∀ c, (s.core c).point = .store → (s.core c).loaded = 0
  /-- a core that is about to write has read what is there -/
  copy : ∀ c, (s.core c).point = .write → (s.core c).copy = s.data
  /-- the sections are as one after the other -/
  data : s.data = s.log.foldl (fun d c => update c d) start.data
  mask : ∀ c, MaskKept start c (s.core c)

/-- A core outside of the routines does not have the lock. -/
theorem not_hasLock_of_idle {core : SpinCore D} (h : core.point = .idle) : ¬HasLock core := by
  rw [HasLock, h]
  exact id

omit [DecidableEq C] in
/-- The invariant holds at the start. -/
theorem spinInv_start (h : s.Starts) : SpinInv update s s where
  excl c d hc := absurd hc (not_hasLock_of_idle (h.idle c))
  value := Or.inl h.value_eq
  locked c hc := absurd hc (not_hasLock_of_idle (h.idle c))
  fresh _ _ _ _ := h.value_eq
  loaded c hc := by
    rw [h.idle c] at hc
    cases hc
  copy c hc := by
    rw [h.idle c] at hc
    cases hc
  data := by rw [h.log_eq, List.foldl_nil]
  mask c := by rw [MaskKept, if_pos (h.idle c)]

/-- What holds of every core holds behind the step of one of them. -/
theorem forall_update {P : C → SpinCore D → Prop} {core : C → SpinCore D} {k : SpinCore D}
    (hk : P c k) (h : ∀ d, d ≠ c → P d (core d)) (d : C) : P d (Function.update core c k d) := by
  by_cases hd : d = c
  · rw [hd, Function.update_self]
    exact hk
  · rw [Function.update_of_ne hd]
    exact h d hd

/-- A step of one core that neither takes nor frees the lock nor writes the data. -/
theorem spinInv_quiet (h : SpinInv update start s) {w : Exclusive C UInt32} {k : SpinCore D}
    (hvalue : w.value = s.lock.value)
    (hmonitor : ∀ d, d ≠ c → w.monitor d = true → s.lock.monitor d = true)
    (hhas : HasLock k ↔ HasLock (s.core c))
    (hfresh : Trying k → k.loaded = 0 → w.monitor c = true → s.lock.value = spinlockUnlocked)
    (hloaded : k.point = .store → k.loaded = 0) (hcopy : k.point = .write → k.copy = s.data)
    (hmask : MaskKept start c k) :
    SpinInv update start ⟨w, s.data, Function.update s.core c k, s.log⟩ := by
  have hkeep : ∀ d, HasLock (Function.update s.core c k d) ↔ HasLock (s.core d) :=
    forall_update (P := fun d core => HasLock core ↔ HasLock (s.core d)) hhas fun _ _ => Iff.rfl
  exact
    { excl := fun d e hd he => h.excl d e ((hkeep d).mp hd) ((hkeep e).mp he)
      value := by
        refine h.value.imp (fun hfree => hvalue.trans hfree) ?_
        rintro ⟨d, hd⟩
        exact ⟨d, (hkeep d).mpr hd⟩
      locked := fun d hd => hvalue.trans (h.locked d ((hkeep d).mp hd))
      fresh := forall_update (P := fun d core => Trying core → core.loaded = 0 →
          w.monitor d = true → w.value = spinlockUnlocked)
        (fun ht hl hm => hvalue.trans (hfresh ht hl hm))
        fun d hd ht hl hm => hvalue.trans (h.fresh d ht hl (hmonitor d hd hm))
      loaded := forall_update (P := fun _ core => core.point = .store → core.loaded = 0) hloaded
        fun d _ => h.loaded d
      copy := forall_update (P := fun _ core => core.point = .write → core.copy = s.data) hcopy
        fun d _ => h.copy d
      data := h.data
      mask := forall_update (P := MaskKept start) hmask fun d _ => h.mask d }

omit [DecidableEq C] in
/-- A core that is not idle has its interrupts masked. -/
theorem maskKept_of_ne {core k : SpinCore D} (h : MaskKept start c core)
    (hcore : core.point ≠ .idle) (hk : k.point ≠ .idle) (hmasked : k.masked = core.masked)
    (hflag : k.flag = core.flag) : MaskKept start c k := by
  rw [MaskKept, if_neg hcore] at h
  rw [MaskKept, if_neg hk, hmasked, hflag]
  exact h

omit [DecidableEq C] in
/-- A core at any other point is not outside. -/
theorem ne_idle {core : SpinCore D} {point : SpinPoint} (h : core.point = point)
    (hne : point ≠ .idle) : core.point ≠ .idle := h ▸ hne

/-- **The lock is taken**: the monitor says that it is free, so no core is in a section. -/
theorem spinInv_take (h : SpinInv update start s) {ok : Bool} (hpoint : (s.core c).point = .store)
    (hsucceeds : s.lock.Succeeds c ok) : SpinInv update start
      ⟨s.lock.write c spinlockLocked false, s.data, Function.update s.core c
        { s.core c with point := .check, status := 0 }, s.log⟩ := by
  have hloaded : (s.core c).loaded = 0 := h.loaded c hpoint
  have htrying : Trying (s.core c) := by
    rw [Trying, hpoint]
    trivial
  have hfree : s.lock.value = spinlockUnlocked := h.fresh c htrying hloaded hsucceeds.1
  have hnone : ∀ d, ¬HasLock (s.core d) := by
    intro d hd
    rw [h.locked d hd] at hfree
    exact absurd hfree (by decide)
  have honly : ∀ d, HasLock (Function.update s.core c
      { s.core c with point := .check, status := 0 } d) → d = c :=
    forall_update (P := fun d core => HasLock core → d = c) (fun _ => rfl)
      fun d _ hd => absurd hd (hnone d)
  have hmine : HasLock { s.core c with point := .check, status := 0 } := ⟨hloaded, rfl⟩
  exact
    { excl := fun d e hd he => (honly d hd).trans (honly e he).symm
      value := by
        refine Or.inr ⟨c, ?_⟩
        dsimp only
        rw [Function.update_self]
        exact hmine
      locked := fun _ _ => rfl
      fresh := by
        intro d _ _ hm
        exact absurd (Exclusive.monitor_write hm).2 Bool.false_ne_true
      loaded := forall_update (P := fun _ core => core.point = .store → core.loaded = 0)
        SpinPoint.noConfusion fun d _ => h.loaded d
      copy := forall_update (P := fun _ core => core.point = .write → core.copy = s.data)
        SpinPoint.noConfusion fun d _ => h.copy d
      data := h.data
      mask := forall_update (P := MaskKept start)
        (maskKept_of_ne (h.mask c) (ne_idle hpoint (by decide)) SpinPoint.noConfusion rfl rfl)
        fun d _ => h.mask d }

/-- A section writes the data: the other cores are in none. -/
theorem spinInv_write (h : SpinInv update start s) (hpoint : (s.core c).point = .write) :
    SpinInv update start ⟨s.lock, update c (s.core c).copy,
      Function.update s.core c { s.core c with point := .unlock }, s.log ++ [c]⟩ := by
  have hmine : HasLock (s.core c) := by
    rw [HasLock, hpoint]
    trivial
  have hkeep : ∀ d, HasLock (Function.update s.core c { s.core c with point := .unlock } d) ↔
      HasLock (s.core d) :=
    forall_update (P := fun d core => HasLock core ↔ HasLock (s.core d))
      (iff_of_true trivial hmine) fun _ _ => Iff.rfl
  exact
    { excl := fun d e hd he => h.excl d e ((hkeep d).mp hd) ((hkeep e).mp he)
      value := by
        refine h.value.imp id ?_
        rintro ⟨d, hd⟩
        exact ⟨d, (hkeep d).mpr hd⟩
      locked := fun d hd => h.locked d ((hkeep d).mp hd)
      fresh := forall_update (P := fun d core => Trying core → core.loaded = 0 →
          s.lock.monitor d = true → s.lock.value = spinlockUnlocked)
        (fun ht => absurd ht id) fun d _ => h.fresh d
      loaded := forall_update (P := fun _ core => core.point = .store → core.loaded = 0)
        SpinPoint.noConfusion fun d _ => h.loaded d
      copy := by
        refine forall_update (P := fun _ core => core.point = .write → core.copy = _)
          SpinPoint.noConfusion fun d hd hp => ?_
        -- two cores in their sections
        have hother : HasLock (s.core d) := by
          rw [HasLock, hp]
          trivial
        exact absurd (h.excl d c hother hmine) hd
      data := by
        rw [h.copy c hpoint, h.data, List.foldl_append]
        rfl
      mask := forall_update (P := MaskKept start)
        (maskKept_of_ne (h.mask c) (ne_idle hpoint (by decide)) SpinPoint.noConfusion rfl rfl)
        fun d _ => h.mask d }

/-- **The lock is freed.** -/
theorem spinInv_free (h : SpinInv update start s) {keep : Bool}
    (hpoint : (s.core c).point = .unlock) : SpinInv update start
      ⟨s.lock.write c spinlockUnlocked keep, s.data,
        Function.update s.core c { s.core c with point := .restore }, s.log⟩ := by
  have hmine : HasLock (s.core c) := by
    rw [HasLock, hpoint]
    trivial
  have hnone : ∀ d, ¬HasLock (Function.update s.core c { s.core c with point := .restore } d) :=
    forall_update (P := fun _ core => ¬HasLock core) id
      fun d hd hother => hd (h.excl d c hother hmine)
  exact
    { excl := fun d _ hd _ => absurd hd (hnone d)
      value := Or.inl rfl
      locked := fun d hd => absurd hd (hnone d)
      fresh := fun _ _ _ _ => rfl
      loaded := forall_update (P := fun _ core => core.point = .store → core.loaded = 0)
        SpinPoint.noConfusion fun d _ => h.loaded d
      copy := forall_update (P := fun _ core => core.point = .write → core.copy = s.data)
        SpinPoint.noConfusion fun d _ => h.copy d
      data := h.data
      mask := forall_update (P := MaskKept start)
        (maskKept_of_ne (h.mask c) (ne_idle hpoint (by decide)) SpinPoint.noConfusion rfl rfl)
        fun d _ => h.mask d }

/-- **Every event keeps the invariant.** -/
theorem spinInv_event (h : SpinInv update start s) (e : SpinEvent C) :
    SpinInv update start (s.event update e) := by
  cases e with
  | clear c =>
    have hsame : Function.update s.core c (s.core c) = s.core := Function.update_eq_self c s.core
    have hquiet := spinInv_quiet (c := c) (k := s.core c) h (w := s.lock.clear c) rfl
      (fun _ _ hm => Exclusive.monitor_clear hm) Iff.rfl
      (fun ht hl hm => h.fresh c ht hl (Exclusive.monitor_clear hm)) (h.loaded c) (h.copy c)
      (h.mask c)
    rw [hsame] at hquiet
    exact hquiet
  | run c ok =>
    have hmask := h.mask c
    have hkeep : ∀ d, d ≠ c → s.lock.monitor d = true → s.lock.monitor d = true := fun _ _ => id
    rw [SpinSystem.event, SpinSystem.run]
    cases hpoint : (s.core c).point with
    | idle =>
      have hnot : ¬HasLock (s.core c) := not_hasLock_of_idle hpoint
      rw [MaskKept, if_pos hpoint] at hmask
      exact spinInv_quiet h rfl hkeep (iff_of_false id hnot) (fun ht => absurd ht id)
        SpinPoint.noConfusion SpinPoint.noConfusion ⟨rfl, hmask⟩
    | load =>
      have hnot : ¬HasLock (s.core c) := by
        rw [HasLock, hpoint]
        exact id
      refine spinInv_quiet h rfl ?_ (iff_of_false id hnot) (fun _ hl _ => hl)
        SpinPoint.noConfusion SpinPoint.noConfusion
        (maskKept_of_ne hmask (ne_idle hpoint (by decide)) SpinPoint.noConfusion rfl rfl)
      exact fun d hd hm => (Exclusive.monitor_load hm).resolve_left hd
    | test =>
      have hnot : ¬HasLock (s.core c) := by
        rw [HasLock, hpoint]
        exact id
      have htrying : Trying (s.core c) := by
        rw [Trying, hpoint]
        trivial
      have hne := ne_idle hpoint (by decide)
      by_cases hl : (s.core c).loaded = 0
      · rw [if_neg (not_not.mpr hl)]
        exact spinInv_quiet h rfl hkeep (iff_of_false id hnot) (fun _ => h.fresh c htrying)
          (fun _ => hl) SpinPoint.noConfusion
          (maskKept_of_ne hmask hne SpinPoint.noConfusion rfl rfl)
      · rw [if_pos hl]
        exact spinInv_quiet h rfl hkeep (iff_of_false (fun hh => hl hh.1) hnot)
          (fun ht => absurd ht id) SpinPoint.noConfusion SpinPoint.noConfusion
          (maskKept_of_ne hmask hne SpinPoint.noConfusion rfl rfl)
    | store =>
      have hnot : ¬HasLock (s.core c) := by
        rw [HasLock, hpoint]
        exact id
      dsimp only [SpinSystem.setCore]
      by_cases hsucceeds : s.lock.Succeeds c ok
      · rw [if_pos hsucceeds, Exclusive.store_of_succeeds hsucceeds]
        exact spinInv_take h hpoint hsucceeds
      · rw [if_neg hsucceeds, Exclusive.store_of_not hsucceeds]
        have hfailed : ¬((s.core c).loaded = 0 ∧ (1 : UInt32) = 0) :=
          fun hh => absurd hh.2 (by decide)
        exact spinInv_quiet h rfl (fun _ _ hm => Exclusive.monitor_clear hm)
          (iff_of_false hfailed hnot) (fun ht => absurd ht id) SpinPoint.noConfusion
          SpinPoint.noConfusion (maskKept_of_ne hmask (ne_idle hpoint (by decide))
            SpinPoint.noConfusion rfl rfl)
    | check =>
      have hhas : HasLock (s.core c) ↔ (s.core c).loaded = 0 ∧ (s.core c).status = 0 := by
        rw [HasLock, hpoint]
      have hne := ne_idle hpoint (by decide)
      by_cases hagain : (s.core c).loaded ≠ 0 ∨ (s.core c).status ≠ 0
      · have hnot : ¬HasLock (s.core c) := by
          rw [hhas]
          exact fun hh => hagain.elim (fun hl => hl hh.1) fun hs => hs hh.2
        rw [if_pos hagain]
        exact spinInv_quiet h rfl hkeep (iff_of_false id hnot) (fun ht => absurd ht id)
          SpinPoint.noConfusion SpinPoint.noConfusion
          (maskKept_of_ne hmask hne SpinPoint.noConfusion rfl rfl)
      · have hboth : HasLock (s.core c) := by
          rw [hhas]
          exact ⟨not_not.mp fun hl => hagain (Or.inl hl), not_not.mp fun hs => hagain (Or.inr hs)⟩
        rw [if_neg hagain]
        exact spinInv_quiet h rfl hkeep (iff_of_true trivial hboth) (fun ht => absurd ht id)
          SpinPoint.noConfusion SpinPoint.noConfusion
          (maskKept_of_ne hmask hne SpinPoint.noConfusion rfl rfl)
    | read =>
      have hhas : HasLock (s.core c) := by
        rw [HasLock, hpoint]
        trivial
      exact spinInv_quiet h rfl hkeep (iff_of_true trivial hhas) (fun ht => absurd ht id)
        SpinPoint.noConfusion (fun _ => rfl)
        (maskKept_of_ne hmask (ne_idle hpoint (by decide)) SpinPoint.noConfusion rfl rfl)
    | write => exact spinInv_write h hpoint
    | unlock => exact spinInv_free h hpoint
    | restore =>
      have hnot : ¬HasLock (s.core c) := by
        rw [HasLock, hpoint]
        exact id
      rw [MaskKept, if_neg (ne_idle hpoint (by decide))] at hmask
      exact spinInv_quiet h rfl hkeep (iff_of_false id hnot) (fun ht => absurd ht id)
        SpinPoint.noConfusion SpinPoint.noConfusion hmask.2

/-- The states of runs of the cores. -/
def SpinRuns (update : C → D → D) (start : SpinSystem C D) : SpinSystem C D → Prop :=
  Reach (fun s e => some (s.event update e)) (fun _ _ => True) start

/-- **The run lemma.** -/
theorem spinInv_of_runs (hstart : start.Starts) (h : SpinRuns update start s) :
    SpinInv update start s := by
  refine Reach.invariant (spinInv_start hstart) ?_ h
  rintro u v e hu - hv
  obtain rfl := Option.some.inj hv
  exact spinInv_event hu e

/-- **The lock serializes the sections**: in every run of any number of cores, with stores that
fail and monitors that get lost at any time, at most one core is in a section, the lock is free if
and only if none is, the data are as if the sections had come one after the other, and a core has
its interrupts masked from `_os_lock_sync` to `_os_unlock_sync` and then as before. -/
theorem spinlock_serializes (hstart : start.Starts) (h : SpinRuns update start s) :
    (∀ c d, HasLock (s.core c) → HasLock (s.core d) → c = d) ∧
    (s.lock.value = spinlockUnlocked ↔ ∀ c, ¬HasLock (s.core c)) ∧
    s.data = s.log.foldl (fun d c => update c d) start.data ∧
    ∀ c, if (s.core c).point = .idle then (s.core c).masked = (start.core c).masked
      else (s.core c).masked = true ∧ (s.core c).flag = (start.core c).masked := by
  have hinv := spinInv_of_runs hstart h
  refine ⟨hinv.excl, ⟨fun hfree c hc => ?_, fun hnone => ?_⟩, hinv.data, hinv.mask⟩
  · rw [hinv.locked c hc] at hfree
    exact absurd hfree (by decide)
  · exact hinv.value.resolve_right fun hex => hnone hex.choose hex.choose_spec

/-! ## Progress -/

/-- The core is in the loop of `_os_spin_lock`. -/
def Waits (core : SpinCore D) : Prop :=
  match core.point with
  | .load | .test | .store => True
  | .check => ¬(core.loaded = 0 ∧ core.status = 0)
  | _ => False

/-- How many instructions a core in the loop is away from the lock if it is free. -/
def lockDistance (core : SpinCore D) (monitor : Bool) : Nat :=
  match core.point with
  | .store => if monitor then 1 else 5
  | .test => if core.loaded ≠ 0 then 5 else if monitor then 2 else 6
  | .load => 3
  | .check => 4
  | _ => 0

/-- How many instructions a core that has the lock is away from its `stlr`. -/
def sectionDistance (core : SpinCore D) : Nat :=
  match core.point with
  | .check => 4
  | .read => 3
  | .write => 2
  | .unlock => 1
  | _ => 0

/-- Some core has the lock. -/
def Taken (s : SpinSystem C D) : Prop := ∃ c, HasLock (s.core c)

/-- The step of another core. -/
theorem core_run_of_ne (hd : c ≠ d) (s : SpinSystem C D) (ok : Bool) :
    (s.run update d ok).core c = s.core c := by
  rw [SpinSystem.run]
  cases (s.core d).point <;> exact Function.update_of_ne hd _ _

/-- A core in the loop gets closer to a free lock with each of its instructions. -/
theorem waits_run (h : SpinInv update start s) (hfree : ¬Taken s) (hwaits : Waits (s.core c)) :
    Taken (s.run update c true) ∨ (Waits ((s.run update c true).core c) ∧
      lockDistance ((s.run update c true).core c) ((s.run update c true).lock.monitor c) <
        lockDistance (s.core c) (s.lock.monitor c)) := by
  have hvalue : s.lock.value = spinlockUnlocked := h.value.resolve_right hfree
  rw [SpinSystem.run]
  cases hpoint : (s.core c).point with
  | load =>
    refine Or.inr ?_
    have hcore : ∀ core : SpinCore D, Function.update s.core c core c = core :=
      fun core => Function.update_self c core s.core
    have hmonitor : (s.lock.load c).monitor c = true := Function.update_self _ _ _
    dsimp only [SpinSystem.setCore]
    rw [hcore, hmonitor]
    refine ⟨trivial, ?_⟩
    simp [lockDistance, hpoint, hvalue, spinlockUnlocked]
  | test =>
    refine Or.inr ?_
    dsimp only [SpinSystem.setCore]
    rw [Function.update_self]
    by_cases hl : (s.core c).loaded = 0
    · rw [if_neg (not_not.mpr hl)]
      refine ⟨trivial, ?_⟩
      cases hm : s.lock.monitor c <;> simp [lockDistance, hpoint, hl]
    · rw [if_pos hl]
      refine ⟨fun hh => hl hh.1, ?_⟩
      simp [lockDistance, hpoint, hl]
  | store =>
    have hl := h.loaded c hpoint
    by_cases hmonitor : s.lock.monitor c = true
    · refine Or.inl ⟨c, ?_⟩
      dsimp only [SpinSystem.setCore]
      rw [Function.update_self, if_pos ⟨hmonitor, rfl⟩]
      exact ⟨hl, rfl⟩
    · refine Or.inr ?_
      dsimp only [SpinSystem.setCore]
      rw [Function.update_self, if_neg fun hs => hmonitor hs.1]
      have hfailed : (1 : UInt32) ≠ 0 := by decide
      refine ⟨fun hh => hfailed hh.2, ?_⟩
      simp [lockDistance, hpoint, hmonitor]
  | check =>
    have hnot : ¬((s.core c).loaded = 0 ∧ (s.core c).status = 0) := by
      rw [Waits, hpoint] at hwaits
      exact hwaits
    refine Or.inr ?_
    dsimp only [SpinSystem.setCore]
    rw [Function.update_self, if_pos (not_and_or.mp hnot)]
    refine ⟨trivial, ?_⟩
    simp [lockDistance, hpoint]
  | _ =>
    rw [Waits, hpoint] at hwaits
    exact absurd hwaits id

/-- The step of another core takes the lock, or leaves the monitor as it is. -/
theorem monitor_run_of_ne (h : SpinInv update start s) (hfree : ¬Taken s) (hd : c ≠ d) :
    Taken (s.run update d true) ∨ (s.run update d true).lock.monitor c = s.lock.monitor c := by
  rw [SpinSystem.run]
  cases hpoint : (s.core d).point with
  | store =>
    by_cases hmonitor : s.lock.monitor d = true
    · refine Or.inl ⟨d, ?_⟩
      dsimp only [SpinSystem.setCore]
      rw [Function.update_self, if_pos ⟨hmonitor, rfl⟩]
      exact ⟨h.loaded d hpoint, rfl⟩
    · refine Or.inr ?_
      dsimp only [SpinSystem.setCore]
      rw [Exclusive.store_of_not fun hs => hmonitor hs.1]
      exact Function.update_of_ne hd _ _
  | load => exact Or.inr (Function.update_of_ne hd _ _)
  | unlock =>
    refine absurd ⟨d, ?_⟩ hfree
    rw [HasLock, hpoint]
    trivial
  | _ => exact Or.inr rfl

/-- A run in which every core goes on again and again, and a store-exclusive whose monitor is set
has success. -/
structure FairCores (update : C → D → D) (start : SpinSystem C D) (run : Nat → SpinSystem C D)
    (core : Nat → C) : Prop where
  starts : start.Starts
  start_eq : run 0 = start
  next_eq : ∀ i, run (i + 1) = (run i).run update (core i) true
  recurs : ∀ c, Recurs core (· = c)

variable {run : Nat → SpinSystem C D} {core : Nat → C}

/-- The invariant holds all along a fair run. -/
theorem spinInv_run (h : FairCores update start run core) (i : Nat) :
    SpinInv update start (run i) := by
  induction i with
  | zero =>
    rw [h.start_eq]
    exact spinInv_start h.starts
  | succ i ih =>
    rw [h.next_eq i]
    exact spinInv_event ih (.run (core i) true)

/-- A core that waits leads to some core having the lock. -/
theorem waits_leadsTo (h : FairCores update start run core) (c : C) :
    LeadsTo run (fun s => Waits (s.core c)) Taken := by
  apply LeadsTo.of_variant fun s => lockDistance (s.core c) (s.lock.monitor c)
  intro n i hi
  by_cases hfree : Taken (run i)
  · exact ⟨i, le_rfl, Or.inr hfree⟩
  · have hstep : LeadsTo run
        (fun s => ¬Taken s ∧ Waits (s.core c) ∧ lockDistance (s.core c) (s.lock.monitor c) = n)
        fun s => (Waits (s.core c) ∧ lockDistance (s.core c) (s.lock.monitor c) < n) ∨ Taken s := by
      apply LeadsTo.of_recurs (h.recurs c)
      · rintro j ⟨hfree, hwaits, hn⟩
        have hinv := spinInv_run h j
        rw [h.next_eq j]
        by_cases hc : c = core j
        · rw [← hc, ← hn]
          exact Or.inr ((waits_run hinv hfree hwaits).symm)
        · by_cases htaken : Taken ((run j).run update (core j) true)
          · exact Or.inr (Or.inr htaken)
          · have hmonitor := (monitor_run_of_ne hinv hfree hc).resolve_left htaken
            rw [core_run_of_ne hc, hmonitor]
            exact Or.inl ⟨htaken, hwaits, hn⟩
      · rintro j ⟨hfree, hwaits, hn⟩ hc
        rw [h.next_eq j, hc, ← hn]
        exact (waits_run (spinInv_run h j) hfree hwaits).symm
    exact hstep i ⟨hfree, hi⟩

/-- A core with the lock gets closer to its `stlr` with each of its instructions. -/
theorem section_run (h : SpinInv update start s) (hhas : HasLock (s.core c)) :
    ¬Taken (s.run update c true) ∨ (HasLock ((s.run update c true).core c) ∧
      sectionDistance ((s.run update c true).core c) < sectionDistance (s.core c)) := by
  rw [SpinSystem.run]
  cases hpoint : (s.core c).point with
  | check =>
    have hboth : (s.core c).loaded = 0 ∧ (s.core c).status = 0 := by
      rw [HasLock, hpoint] at hhas
      exact hhas
    have hnot : ¬((s.core c).loaded ≠ 0 ∨ (s.core c).status ≠ 0) :=
      fun hh => hh.elim (fun hl => hl hboth.1) fun hs => hs hboth.2
    refine Or.inr ?_
    dsimp only [SpinSystem.setCore]
    rw [Function.update_self, if_neg hnot]
    refine ⟨trivial, ?_⟩
    simp [sectionDistance, hpoint]
  | read =>
    refine Or.inr ?_
    dsimp only [SpinSystem.setCore]
    rw [Function.update_self]
    refine ⟨trivial, ?_⟩
    simp [sectionDistance, hpoint]
  | write =>
    refine Or.inr ?_
    dsimp only [SpinSystem.setCore]
    rw [Function.update_self]
    refine ⟨trivial, ?_⟩
    simp [sectionDistance, hpoint]
  | unlock =>
    refine Or.inl ?_
    rintro ⟨d, hd⟩
    exact forall_update (P := fun _ core => ¬HasLock core) id
      (fun d hd hother => hd (h.excl d c hother hhas)) d hd
  | _ =>
    rw [HasLock, hpoint] at hhas
    exact absurd hhas id

/-- A core that has the lock leads to the lock being free. -/
theorem section_leadsTo (h : FairCores update start run core) (c : C) :
    LeadsTo run (fun s => HasLock (s.core c)) fun s => ¬Taken s := by
  apply LeadsTo.of_variant fun s => sectionDistance (s.core c)
  intro n
  apply LeadsTo.of_recurs (h.recurs c)
  · rintro j ⟨hhas, hn⟩
    rw [h.next_eq j]
    by_cases hc : c = core j
    · rw [← hc, ← hn]
      exact Or.inr ((section_run (spinInv_run h j) hhas).symm)
    · rw [core_run_of_ne hc]
      exact Or.inl ⟨hhas, hn⟩
  · rintro j ⟨hhas, hn⟩ hc
    rw [h.next_eq j, hc, ← hn]
    exact (section_run (spinInv_run h j) hhas).symm

/-- Two cores and a counter, ahead of their sections. -/
def twoCores : SpinSystem Bool Nat :=
  { lock := ⟨spinlockUnlocked, fun _ => false⟩
    data := 0
    core := fun _ => ⟨.idle, 0, 0, false, false, 0⟩
    log := [] }

/-- Each section adds one. -/
def addOne (_ : Bool) (d : Nat) : Nat := d + 1

/-- Both cores load the free lock, and one store fails; in the end both have counted. -/
theorem spinlock_serializes_two : ∃ s, SpinRuns addOne twoCores s ∧ s.log = [false, true] ∧
    s.data = s.log.foldl (fun d c => addOne c d) twoCores.data := by
  obtain ⟨_, s, ⟨⟩, hs, hlog⟩ := Reach.of_decide
    (fun s e => some (SpinSystem.event addOne s e)) (fun _ _ => True) (some twoCores)
    ([true, false, true, false, true, false, false, true, false, true, false, true, false, true,
      false, true, true, true, true, true, true, true, true].map (SpinEvent.run · true))
    (fun _ s => s.log = [false, true]) (by decide)
  have hstart : twoCores.Starts := ⟨rfl, fun _ => rfl, rfl⟩
  exact ⟨s, hs, hlog, (spinlock_serializes hstart hs).2.2.1⟩

/-- The cores take turns. -/
def coreTurns (i : Nat) : Bool := decide (i % 2 = 0)

/-- The cores take turns. -/
def twoCoresRun : Nat → SpinSystem Bool Nat
  | 0 => twoCores
  | i + 1 => (twoCoresRun i).run addOne (coreTurns i) true

end Eos.Analysis
