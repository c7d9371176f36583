import Mathlib
import Lotus.Lib.Run
import Lotus.Lib.SortSlice

/-!
# Network upgrades and their pre-migrations (`chain/stmgr/forks.go`, `chain/stmgr/stmgr.go`)

An `UpgradeSchedule` lists the network upgrades: the epoch of each, the network version it
moves to, and the pre-migrations that may run ahead of its migration, each in a window of epochs
before it.  `Validate` checks each upgrade and the order of the schedule, and the state manager
then keeps, for `GetNtwkVersion`, a list of version specs (the version in force up to and
including each upgrade epoch) and, by upgrade epoch, the migrations with their pre-migrations.

`preMigrationWorker` turns each pre-migration into two operations on a schedule: one that starts
it once the head reaches `upgrade - StartWithin` unless the head is already at or past its
`notAfter` epoch, and one that cancels it at `upgrade - StopWithin`.  The schedule is sorted by
epoch, with `sort.Slice`, so in any order among equal epochs (`SortSlice.Sorts`), and on every
head the worker runs and drops the operations it has reached.  A run of the worker is a list of
notified head heights, in any order.

**Versions.**  For a schedule that `Validate` accepts, the version is non-decreasing in the epoch
(`getNtwkVersion_mono`); with at least one upgrade, it is at every epoch the network of the last
upgrade before it, or `0` (`getNtwkVersion_eq_versionAt`), while an empty schedule runs the
newest version from genesis on (`getNtwkVersion_nil`).

**Pre-migrations.**  Every operation runs at most once, at the first notified head at or past
its epoch, and it runs there exactly when its window allows it (`mem_log_iff`,
`preMigrationWorker_log`); a cancel always
runs, and never before the start of its pre-migration.  The window is not the one the options
describe: `notAfter` is negative whenever the upgrade is closer to genesis than `DontStartWithin`,
and a negative `notAfter` is the cancel operation's mark for "always run", so such a
pre-migration starts at the first head whatever its height (`preMigration_starts_past_window`);
a `notAfter` clamped to `stop - 1` and tested with `<` refuses the epoch just before `stop`; and
a head past the window drops the start for good, even if a later head goes back into it.
-/

namespace Lotus

namespace Stmgr

/-- `PreMigration`, with the epochs that place it; the function it runs is not modelled. -/
structure PreMigration where
  startWithin : ℤ
  dontStartWithin : ℤ
  stopWithin : ℤ
  deriving DecidableEq

/-- `Upgrade`: its epoch, the version it moves to, whether it has a `Migration`, and its
pre-migrations. -/
structure Upgrade where
  height : ℤ
  network : ℕ
  migration : Bool
  preMigrations : List PreMigration
  deriving DecidableEq

/-! ## Validation -/

/-- The checks `Validate` makes of one pre-migration. -/
def PreMigration.validate (m : PreMigration) : Except String Unit :=
  if m.startWithin ≤ 0 then .error "pre-migration must specify a positive start-within epoch"
  else if m.dontStartWithin < 0 ∨ m.stopWithin < 0 then
    .error "pre-migration must specify non-negative epochs"
  else if m.startWithin ≤ m.stopWithin then
    .error "pre-migration start-within must come before stop-within"
  -- if we have a dont-start-within
  else if m.dontStartWithin ≠ 0 ∧ m.dontStartWithin < m.stopWithin then
    .error "pre-migration dont-start-within must come before stop-within"
  else if m.dontStartWithin ≠ 0 ∧ m.startWithin ≤ m.dontStartWithin then
    .error "pre-migration start-within must come after dont-start-within"
  else .ok ()

/-- The checks `Validate` makes of one upgrade. -/
def Upgrade.validate (u : Upgrade) : Except String Unit :=
  if u.network ≤ 0 then .error ("cannot upgrade to version <= 0: " ++ toString u.network)
  else
    match u.preMigrations.forM PreMigration.validate with
    | .error err => .error err
    | .ok () =>
      if SortSlice.sliceIsSorted (fun a b => decide (a.startWithin > b.startWithin))
        u.preMigrations then .ok ()
      else .error "pre-migrations must be sorted by start epoch"

/-- The order checks of `Validate`, on upgrade `i` and the one before it, `prev` at `i - 1`. -/
def validateStep (i : ℕ) (prev curr : Upgrade) : Except String Unit :=
  if ¬ prev.network ≤ curr.network then
    .error ("cannot downgrade from version " ++ toString prev.network ++ " to version " ++
      toString curr.network)
  -- the previous upgrade was disabled
  else if prev.height < 0 then .ok ()
  else if ¬ prev.height < curr.height then
    .error ("upgrade heights must be strictly increasing: upgrade " ++ toString (i - 1) ++
      " was at height " ++ toString prev.height ++ ", followed by upgrade " ++ toString i ++
      " at height " ++ toString curr.height)
  else .ok ()

/-- `UpgradeSchedule.Validate`. -/
def validate (us : List Upgrade) : Except String Unit :=
  match us.forM Upgrade.validate with
  | .error err => .error err
  | .ok () => ((us.zip us.tail).zipIdx.forM fun x => validateStep (x.2 + 1) x.1.1 x.1.2)

/-! ## The state manager's schedule -/

/-- A `versionSpec`: the version in force up to and including epoch `atOrBelow`. -/
structure VersionSpec where
  networkVersion : ℕ
  atOrBelow : ℤ
  deriving DecidableEq

/-- A `migration`: whether it has an upgrade function, and its pre-migrations. -/
structure Migration where
  upgrade : Bool
  preMigrations : List PreMigration
  deriving DecidableEq

/-- What the state manager keeps of the schedule. -/
structure StateManager where
  networkVersions : List VersionSpec
  latestVersion : ℕ
  stateMigrations : AList fun _ : ℤ => Migration

/-- `build.NewestNetworkVersion`. -/
def newestNetworkVersion : ℕ := 13

/-- The loop of `NewStateManagerWithUpgradeSchedule` over one upgrade: its migration by epoch, a
spec for the version before it, and its version as the last one. -/
def addUpgrade (acc : (AList fun _ : ℤ => Migration) × List VersionSpec × ℕ) (upgrade : Upgrade) :
    (AList fun _ : ℤ => Migration) × List VersionSpec × ℕ :=
  let (stateMigrations, networkVersions, lastVersion) := acc
  let stateMigrations := if upgrade.migration ∨ upgrade.preMigrations ≠ [] then
      stateMigrations.insert upgrade.height ⟨upgrade.migration, upgrade.preMigrations⟩
    else stateMigrations
  (stateMigrations, networkVersions ++ [⟨lastVersion, upgrade.height⟩], upgrade.network)

/-- `NewStateManagerWithUpgradeSchedule`, for the schedule it keeps. -/
def newStateManagerWithUpgradeSchedule (us : List Upgrade) : Except String StateManager :=
  match validate us with
  | .error err => .error err
  | .ok () =>
    if us.isEmpty then
      -- otherwise, go directly to the latest version
      .ok ⟨[], newestNetworkVersion, ∅⟩
    else
      let (stateMigrations, networkVersions, lastVersion) := us.foldl addUpgrade (∅, [], 0)
      .ok ⟨networkVersions, lastVersion, stateMigrations⟩

/-- `GetNtwkVersion`: the version of the first spec whose last epoch is at or past `height`. -/
def StateManager.getNtwkVersion (sm : StateManager) (height : ℤ) : ℕ :=
  match sm.networkVersions.find? fun spec => height ≤ spec.atOrBelow with
  | some spec => spec.networkVersion
  | none => sm.latestVersion

/-! ## The pre-migration worker -/

/-- What an operation's function does. -/
inductive OpAction where
  | start
  | cancel
  deriving DecidableEq

/-- The function of an operation: start or cancel pre-migration `index` of the upgrade at
`upgradeEpoch`. -/
structure OpRun where
  upgradeEpoch : ℤ
  index : ℕ
  action : OpAction
  deriving DecidableEq

/-- An `op` of the worker's schedule. -/
structure Op where
  after : ℤ
  notAfter : ℤ
  run : OpRun
  deriving DecidableEq

/-- The two operations of pre-migration `index` of the upgrade at `upgradeEpoch`. -/
def premOps (upgradeEpoch : ℤ) (prem : PreMigration) (index : ℕ) : List Op :=
  let afterEpoch := upgradeEpoch - prem.startWithin
  let notAfterEpoch := upgradeEpoch - prem.dontStartWithin
  let stopEpoch := upgradeEpoch - prem.stopWithin
  -- we can't start after we stop
  let notAfterEpoch := if notAfterEpoch > stopEpoch then stopEpoch - 1 else notAfterEpoch
  [⟨afterEpoch, notAfterEpoch, ⟨upgradeEpoch, index, .start⟩⟩,
    ⟨stopEpoch, -1, ⟨upgradeEpoch, index, .cancel⟩⟩]

/-- Every pre-migration turned into its operations, before sorting. -/
def unsortedSchedule (sm : StateManager) : List Op :=
  sm.stateMigrations.entries.flatMap fun e =>
    e.2.preMigrations.zipIdx.flatMap fun x => premOps e.1 x.1 x.2

/-- `schedule[i].after < schedule[j].after`, the order of the sort. -/
def opLess (a b : Op) : Bool :=
  decide (a.after < b.after)

/-- The worker's schedule, and each operation it has run with the height of the head it ran at. -/
structure Worker where
  schedule : List Op
  log : List (ℤ × OpRun)

/-- The loop on one head: the operations left, and those run, from the first on while the head
has reached them. -/
def drain (height : ℤ) : List Op → List Op × List Op
  | [] => ([], [])
  | op :: rest =>
    if height < op.after then (op :: rest, [])
    else
      let (left, ran) := drain height rest
      -- if we haven't passed the pre-migration height
      (left, if op.notAfter < 0 ∨ height < op.notAfter then op :: ran else ran)

/-- The worker before any head, its schedule sorted by `sort`. -/
def Worker.init (sort : List Op → List Op) (sm : StateManager) : Worker :=
  ⟨sort (unsortedSchedule sm), []⟩

/-- The worker on a head at `height`. -/
def Worker.headChange (w : Worker) (height : ℤ) : Worker :=
  let (schedule, ran) := drain height w.schedule
  ⟨schedule, w.log ++ ran.map fun op => (height, op.run)⟩

/-! ## What `Validate` accepts -/

/-- The windows `Validate` accepts for a pre-migration. -/
structure PreMigration.Valid (m : PreMigration) : Prop where
  start_pos : 0 < m.startWithin
  dontStart_nonneg : 0 ≤ m.dontStartWithin
  stop_nonneg : 0 ≤ m.stopWithin
  stop_lt_start : m.stopWithin < m.startWithin
  dontStart : m.dontStartWithin ≠ 0 →
    m.stopWithin ≤ m.dontStartWithin ∧ m.dontStartWithin < m.startWithin

/-- The order `Validate` accepts between an upgrade and the next: the version does not go down,
and an enabled upgrade comes at an earlier epoch. -/
def Ordered (prev curr : Upgrade) : Prop :=
  prev.network ≤ curr.network ∧ (0 ≤ prev.height → prev.height < curr.height)

/-- What `Validate` accepts of a schedule. -/
structure Valid (us : List Upgrade) : Prop where
  network_pos : ∀ u ∈ us, 0 < u.network
  preMigrations : ∀ u ∈ us, ∀ m ∈ u.preMigrations, m.Valid
  ordered : us.IsChain Ordered

theorem PreMigration.valid_of_validate {m : PreMigration} (h : m.validate = .ok ()) : m.Valid := by
  unfold PreMigration.validate at h
  split_ifs at h with h₁ h₂ h₃ h₄ h₅
  exact ⟨by omega, by omega, by omega, by omega, fun hd => ⟨by omega, by omega⟩⟩

theorem Upgrade.valid_of_validate {u : Upgrade} (h : u.validate = .ok ()) :
    0 < u.network ∧ ∀ m ∈ u.preMigrations, m.Valid := by
  unfold Upgrade.validate at h
  by_cases hn : u.network ≤ 0
  · rw [if_pos hn] at h
    cases h
  · rw [if_neg hn] at h
    split at h
    · cases h
    · rename_i hpre
      exact ⟨by omega, fun m hm => PreMigration.valid_of_validate ((Run.forM_eq_ok_iff _ _).1 hpre m hm)⟩

theorem ordered_of_validateStep {i : ℕ} {prev curr : Upgrade}
    (h : validateStep i prev curr = .ok ()) : Ordered prev curr := by
  unfold validateStep at h
  split_ifs at h with h₁ h₂ h₃
  · exact ⟨by omega, fun h => absurd h (by omega)⟩
  · exact ⟨by omega, fun _ => by omega⟩

/-- A relation holds along a list when it holds of each element and the one after it. -/
lemma isChain_of_zip_tail {α : Type*} {R : α → α → Prop} :
    ∀ {l : List α}, (∀ p ∈ l.zip l.tail, R p.1 p.2) → l.IsChain R
  | [], _ => .nil
  | [_], _ => .singleton _
  | a :: b :: l, h => by
    rw [List.isChain_cons_cons]
    refine ⟨h (a, b) (by simp), isChain_of_zip_tail fun p hp => h p ?_⟩
    rw [List.tail_cons, List.zip_cons_cons]
    exact List.mem_cons_of_mem _ hp

/-- **What `Validate` checks.** -/
theorem valid_of_validate {us : List Upgrade} (h : validate us = .ok ()) : Valid us := by
  unfold validate at h
  split at h
  · cases h
  · rename_i hups
    have hu := (Run.forM_eq_ok_iff _ us).1 hups
    have hsteps := (Run.forM_eq_ok_iff _ _).1 h
    refine ⟨fun u hu' => (Upgrade.valid_of_validate (hu u hu')).1,
      fun u hu' => (Upgrade.valid_of_validate (hu u hu')).2, isChain_of_zip_tail fun p hp => ?_⟩
    -- the pair sits at some index of the loop
    obtain ⟨i, hi⟩ := List.mem_iff_getElem?.1 hp
    exact ordered_of_validateStep (hsteps (p, i) (List.mem_zipIdx_iff_getElem?.2 hi))

theorem Ordered.trans {a b c : Upgrade} (hab : Ordered a b) (hbc : Ordered b c) : Ordered a c :=
  ⟨Nat.le_trans hab.1 hbc.1, fun h => Int.lt_trans (hab.2 h) (hbc.2 (by have := hab.2 h; omega))⟩

instance : Trans Ordered Ordered Ordered := ⟨Ordered.trans⟩

/-! ## Versions -/

/-- The version specs the loop builds for `us` when the version before them is `v`. -/
def versionSpecs (v : ℕ) : List Upgrade → List VersionSpec
  | [] => []
  | u :: us => ⟨v, u.height⟩ :: versionSpecs u.network us

/-- The version the upgrade schedule gives epoch `h`: the network of the last upgrade before `h`,
or `0` if there is none. -/
def versionAt (us : List Upgrade) (h : ℤ) : ℕ :=
  ((us.filter fun u => decide (u.height < h)).getLast?.map (·.network)).getD 0

/-- The last network of `u :: us` is that of `us`, or `u`'s. -/
lemma lastNetwork_cons (u : Upgrade) (us : List Upgrade) (v : ℕ) :
    ((u :: us).getLast?.map (·.network)).getD v = (us.getLast?.map (·.network)).getD u.network := by
  cases h : us.getLast? <;> simp [List.getLast?_cons, h]

lemma foldl_addUpgrade (us : List Upgrade) :
    ∀ (m : AList fun _ : ℤ => Migration) (nvs : List VersionSpec) (v : ℕ),
      (us.foldl addUpgrade (m, nvs, v)).2 =
        (nvs ++ versionSpecs v us, (us.getLast?.map (·.network)).getD v) := by
  induction us with
  | nil => simp [versionSpecs]
  | cons u us ih =>
    intro m nvs v
    rw [List.foldl_cons, addUpgrade, ih, List.append_assoc, List.singleton_append, versionSpecs,
      lastNetwork_cons]

/-- What `NewStateManagerWithUpgradeSchedule` keeps of a schedule it accepts. -/
theorem newStateManager_eq_ok {us : List Upgrade} {sm : StateManager}
    (h : newStateManagerWithUpgradeSchedule us = .ok sm) :
    Valid us ∧ (us = [] → sm = ⟨[], newestNetworkVersion, ∅⟩) ∧
      (us ≠ [] → sm.networkVersions = versionSpecs 0 us ∧
        sm.latestVersion = (us.getLast?.map (·.network)).getD 0 ∧
        sm.stateMigrations = (us.foldl addUpgrade (∅, [], 0)).1) := by
  unfold newStateManagerWithUpgradeSchedule at h
  split at h
  · cases h
  · rename_i hvalid
    refine ⟨valid_of_validate hvalid, fun hnil => ?_, fun hne => ?_⟩
    · subst hnil
      cases h
      rfl
    · rw [if_neg (by simpa using hne)] at h
      have hfold := foldl_addUpgrade us ∅ [] 0
      cases h
      exact ⟨(congrArg Prod.fst hfold).trans (List.nil_append _), congrArg Prod.snd hfold, rfl⟩

section Version

variable (m : AList fun _ : ℤ => Migration)

/-- `GetNtwkVersion` over the specs of `u :: us`: the version before `u` up to `u`'s epoch, and
the versions after it beyond. -/
lemma getNtwkVersion_specs_cons (v : ℕ) (u : Upgrade) (us : List Upgrade) (last : ℕ) (h : ℤ) :
    StateManager.getNtwkVersion ⟨versionSpecs v (u :: us), last, m⟩ h =
      if h ≤ u.height then v else StateManager.getNtwkVersion ⟨versionSpecs u.network us, last, m⟩ h := by
  unfold StateManager.getNtwkVersion
  rw [versionSpecs, List.find?_cons]
  by_cases hu : h ≤ u.height
  · simp [hu]
  · simp [hu]

/-- Past its first upgrade the specs give the network of the last upgrade before `h`. -/
lemma getNtwkVersion_specs_eq (h : ℤ) (h0 : 0 ≤ h) :
    ∀ (v : ℕ) (us : List Upgrade), us.IsChain Ordered →
      StateManager.getNtwkVersion ⟨versionSpecs v us, (us.getLast?.map (·.network)).getD v, m⟩ h =
        ((us.filter fun u => decide (u.height < h)).getLast?.map (·.network)).getD v
  | v, [], _ => rfl
  | v, u :: us, hchain => by
    rw [getNtwkVersion_specs_cons]
    have hpair := hchain.pairwise
    rw [List.pairwise_cons] at hpair
    by_cases hu : h ≤ u.height
    · -- `u` is at or past `h`, and so is every upgrade after it
      have hnone : (u :: us).filter (fun u => decide (u.height < h)) = [] := by
        rw [List.filter_eq_nil_iff]
        intro r hr
        rcases List.mem_cons.1 hr with rfl | hr
        · simpa using hu
        · simpa using Int.le_of_lt (Int.lt_of_le_of_lt hu ((hpair.1 r hr).2 (Int.le_trans h0 hu)))
      rw [if_pos hu, hnone]
      rfl
    · rw [if_neg hu, List.filter_cons_of_pos (by simpa using hu), lastNetwork_cons,
        lastNetwork_cons]
      exact getNtwkVersion_specs_eq h h0 u.network us hchain.tail

variable (h : ℤ)

/-- The specs never give less than the version before them, when the versions only go up. -/
lemma le_getNtwkVersion_specs : ∀ (v : ℕ) (us : List Upgrade), (∀ u ∈ us, v ≤ u.network) →
    us.Pairwise (fun a b => a.network ≤ b.network) →
      v ≤ StateManager.getNtwkVersion ⟨versionSpecs v us, (us.getLast?.map (·.network)).getD v, m⟩ h
  | v, [], _, _ => Nat.le_refl v
  | v, u :: us, hv, hpair => by
    rw [lastNetwork_cons, getNtwkVersion_specs_cons]
    rw [List.pairwise_cons] at hpair
    split
    · exact Nat.le_refl v
    · exact Nat.le_trans (hv u List.mem_cons_self)
        (le_getNtwkVersion_specs u.network us hpair.1 hpair.2)

/-- The specs give a version that does not go down as the epoch grows. -/
lemma getNtwkVersion_specs_mono {a b : ℤ} (hab : a ≤ b) :
    ∀ (v : ℕ) (us : List Upgrade), (∀ u ∈ us, v ≤ u.network) →
      us.Pairwise (fun a b => a.network ≤ b.network) →
      StateManager.getNtwkVersion ⟨versionSpecs v us, (us.getLast?.map (·.network)).getD v, m⟩ a ≤
        StateManager.getNtwkVersion ⟨versionSpecs v us, (us.getLast?.map (·.network)).getD v, m⟩ b
  | v, [], _, _ => Nat.le_refl _
  | v, u :: us, hv, hpair => by
    rw [lastNetwork_cons, getNtwkVersion_specs_cons, getNtwkVersion_specs_cons]
    rw [List.pairwise_cons] at hpair
    by_cases ha : a ≤ u.height
    · rw [if_pos ha]
      split
      · exact Nat.le_refl v
      · -- `b` is past `u`: the version is at least `u`'s
        exact Nat.le_trans (hv u List.mem_cons_self)
          (le_getNtwkVersion_specs m b u.network us hpair.1 hpair.2)
    · rw [if_neg ha, if_neg (by omega)]
      exact getNtwkVersion_specs_mono hab u.network us hpair.1 hpair.2

end Version

/-- With no upgrade, `GetNtwkVersion` is the newest version at every epoch. -/
theorem getNtwkVersion_nil {sm : StateManager} (h : newStateManagerWithUpgradeSchedule [] = .ok sm)
    (height : ℤ) : sm.getNtwkVersion height = newestNetworkVersion := by
  rw [(newStateManager_eq_ok h).2.1 rfl]
  rfl

/-- An empty schedule runs version `13` from genesis. -/
theorem getNtwkVersion_nil_genesis :
    ∃ sm, newStateManagerWithUpgradeSchedule [] = .ok sm ∧
      sm.getNtwkVersion 0 = newestNetworkVersion := by
  have hsm : newStateManagerWithUpgradeSchedule [] = .ok _ := rfl
  exact ⟨_, hsm, getNtwkVersion_nil hsm 0⟩

/-- **Each version starts the epoch after its upgrade.**  With at least one upgrade, the version
at every epoch is the network of the last upgrade before it, or `0` if there is none. -/
theorem getNtwkVersion_eq_versionAt {us : List Upgrade} {sm : StateManager}
    (h : newStateManagerWithUpgradeSchedule us = .ok sm) (hne : us ≠ []) {height : ℤ}
    (h0 : 0 ≤ height) : sm.getNtwkVersion height = versionAt us height := by
  obtain ⟨hvalid, -, hsm⟩ := newStateManager_eq_ok h
  obtain ⟨hspecs, hlatest, -⟩ := hsm hne
  have hform : sm = ⟨versionSpecs 0 us, (us.getLast?.map (·.network)).getD 0, sm.stateMigrations⟩ := by
    rw [← hspecs, ← hlatest]
  rw [hform, getNtwkVersion_specs_eq _ height h0 0 us hvalid.ordered]
  rfl

/-- **The version never goes down.** -/
theorem getNtwkVersion_mono {us : List Upgrade} {sm : StateManager}
    (h : newStateManagerWithUpgradeSchedule us = .ok sm) {a b : ℤ} (hab : a ≤ b) :
    sm.getNtwkVersion a ≤ sm.getNtwkVersion b := by
  obtain ⟨hvalid, hnil, hsm⟩ := newStateManager_eq_ok h
  by_cases hne : us = []
  · rw [hnil hne]
    exact Nat.le_refl _
  obtain ⟨hspecs, hlatest, -⟩ := hsm hne
  have hform : sm = ⟨versionSpecs 0 us, (us.getLast?.map (·.network)).getD 0, sm.stateMigrations⟩ := by
    rw [← hspecs, ← hlatest]
  rw [hform]
  exact getNtwkVersion_specs_mono _ hab 0 us (fun u _ => Nat.zero_le _)
    (hvalid.ordered.pairwise.imp fun h => h.1)

/-- One upgrade to version `13` at epoch `20`: version `0` up to it, `13` after. -/
theorem getNtwkVersion_mono_oneUpgrade :
    ∃ sm, newStateManagerWithUpgradeSchedule [⟨20, 13, true, []⟩] = .ok sm ∧
      sm.getNtwkVersion 20 = 0 ∧ sm.getNtwkVersion 21 = 13 ∧
      sm.getNtwkVersion 20 ≤ sm.getNtwkVersion 21 := by
  have hsm : newStateManagerWithUpgradeSchedule [⟨20, 13, true, []⟩] = .ok _ := rfl
  exact ⟨_, hsm, rfl, rfl, getNtwkVersion_mono hsm (by decide)⟩

/-- The version at an epoch is below `v` when the network of every upgrade before it is: an
upgrade's version starts only the epoch after it. -/
theorem getNtwkVersion_lt {us : List Upgrade} {sm : StateManager}
    (h : newStateManagerWithUpgradeSchedule us = .ok sm) (hne : us ≠ []) {height : ℤ}
    (h0 : 0 ≤ height) {v : ℕ} (hv : 0 < v) (hbelow : ∀ u ∈ us, u.height < height → u.network < v) :
    sm.getNtwkVersion height < v := by
  rw [getNtwkVersion_eq_versionAt h hne h0, versionAt]
  cases hl : (us.filter fun u => decide (u.height < height)).getLast? with
  | none => simpa using hv
  | some u =>
    obtain ⟨hu, hlt⟩ := List.mem_filter.mp (List.mem_of_getLast? hl)
    simpa using hbelow u hu (of_decide_eq_true hlt)

/-! ## What the worker runs -/

/-- The first notified head at or past epoch `e`. -/
def firstAtOrPast (heads : List ℤ) (e : ℤ) : Option ℤ :=
  heads.find? fun h => decide (e ≤ h)

/-- An operation reached on a head at `height` runs there. -/
def Op.Runs (op : Op) (height : ℤ) : Prop :=
  op.notAfter < 0 ∨ height < op.notAfter

instance (op : Op) (height : ℤ) : Decidable (op.Runs height) :=
  inferInstanceAs (Decidable (_ ∨ _))

lemma firstAtOrPast_append (heads : List ℤ) (height e : ℤ) :
    firstAtOrPast (heads ++ [height]) e =
      (firstAtOrPast heads e).or (if e ≤ height then some height else none) := by
  unfold firstAtOrPast
  rw [List.find?_append, List.find?_singleton]
  by_cases he : e ≤ height <;> simp [he]

/-- On a schedule sorted by epoch, a head runs out the operations it has reached, and runs those
of them whose window allows it. -/
lemma drain_sorted (height : ℤ) : ∀ {l : List Op}, l.Pairwise (fun a b => a.after ≤ b.after) →
    drain height l = (l.filter fun op => decide (height < op.after),
      l.filter fun op => decide (op.after ≤ height ∧ op.Runs height))
  | [], _ => rfl
  | op :: rest, hl => by
    rw [List.pairwise_cons] at hl
    unfold drain
    by_cases hop : height < op.after
    · -- the head has not reached `op`, nor anything after it
      have hkeep : rest.filter (fun o => decide (height < o.after)) = rest :=
        List.filter_eq_self.2 fun o ho => by simpa using Int.lt_of_lt_of_le hop (hl.1 o ho)
      have hnone : rest.filter (fun o => decide (o.after ≤ height ∧ o.Runs height)) = [] :=
        List.filter_eq_nil_iff.2 fun o ho => by
          have := hl.1 o ho
          simp only [decide_eq_true_eq, not_and]
          intro h
          omega
      rw [if_pos hop, List.filter_cons_of_pos (by simpa using hop), hkeep,
        List.filter_cons_of_neg (by simp; omega), hnone]
    · rw [if_neg hop, drain_sorted height hl.2, List.filter_cons_of_neg (by simpa using hop)]
      dsimp only
      by_cases hruns : op.Runs height
      · rw [if_pos (show op.notAfter < 0 ∨ height < op.notAfter from hruns),
          List.filter_cons_of_pos (by simpa using ⟨by omega, hruns⟩)]
      · rw [if_neg (show ¬(op.notAfter < 0 ∨ height < op.notAfter) from hruns),
          List.filter_cons_of_neg (by simpa using fun _ => hruns)]

/-- The worker after the heads `heads`, its schedule sorted from `sched`: the operations no head
has reached are left in order, and every reached one ran, once, at the first head at or past its
epoch, if its window allowed it there. -/
structure Drained (sched : List Op) (heads : List ℤ) (w : Worker) : Prop where
  schedule_eq : w.schedule = sched.filter fun op => (firstAtOrPast heads op.after).isNone
  mem_log : ∀ height r, (height, r) ∈ w.log ↔
    ∃ op ∈ sched, op.run = r ∧ firstAtOrPast heads op.after = some height ∧ op.Runs height
  nodup : (w.log.map Prod.snd).Nodup

section Drain

variable {sched : List Op} (hsorted : sched.Pairwise fun a b => a.after ≤ b.after)
  (hruns : (sched.map Op.run).Nodup)
include hsorted hruns

/-- **One head.** -/
theorem Drained.headChange {heads : List ℤ} {w : Worker} (hw : Drained sched heads w)
    (height : ℤ) : Drained sched (heads ++ [height]) (w.headChange height) := by
  have hws : w.schedule.Pairwise fun a b => a.after ≤ b.after := by
    rw [hw.schedule_eq]
    exact hsorted.sublist List.filter_sublist
  -- an operation is unreached after the head when it was before and the head is short of it
  have hnone : ∀ e, (firstAtOrPast (heads ++ [height]) e).isNone =
      ((firstAtOrPast heads e).isNone && decide (height < e)) := by
    intro e
    rw [firstAtOrPast_append]
    cases firstAtOrPast heads e with
    | some h' => rfl
    | none =>
      by_cases he : e ≤ height
      · simp [he]
      · simp [he]
        omega
  unfold Worker.headChange
  rw [drain_sorted height hws, hw.schedule_eq]
  dsimp only
  refine ⟨?_, fun h' r => ?_, ?_⟩
  · rw [List.filter_filter]
    exact List.filter_congr fun op _ => by rw [hnone, Bool.and_comm]
  · rw [List.mem_append, hw.mem_log, List.mem_map]
    constructor
    · rintro (⟨op, hop, rfl, hfirst, hr⟩ | ⟨op, hop, heq⟩)
      · exact ⟨op, hop, rfl, by rw [firstAtOrPast_append, hfirst]; rfl, hr⟩
      · -- run by this head: reached now and not before
        simp only [List.mem_filter, decide_eq_true_eq, Option.isNone_iff_eq_none] at hop
        obtain ⟨⟨hop, hfirst⟩, hafter, hr⟩ := hop
        cases heq
        exact ⟨op, hop, rfl, by rw [firstAtOrPast_append, hfirst, if_pos hafter]; rfl, hr⟩
    · rintro ⟨op, hop, rfl, hfirst, hr⟩
      rw [firstAtOrPast_append] at hfirst
      cases hprev : firstAtOrPast heads op.after with
      | some h'' =>
        rw [hprev] at hfirst
        cases hfirst
        exact .inl ⟨op, hop, rfl, hprev, hr⟩
      | none =>
        rw [hprev] at hfirst
        by_cases hafter : op.after ≤ height
        · rw [if_pos hafter] at hfirst
          cases hfirst
          refine .inr ⟨op, ?_, rfl⟩
          simp only [List.mem_filter, decide_eq_true_eq, Option.isNone_iff_eq_none]
          exact ⟨⟨hop, hprev⟩, hafter, hr⟩
        · rw [if_neg hafter] at hfirst
          cases hfirst
  · rw [List.map_append, List.map_map]
    have hsub : ((sched.filter fun op => (firstAtOrPast heads op.after).isNone).filter
        fun op => decide (op.after ≤ height ∧ op.Runs height)).Sublist sched :=
      List.filter_sublist.trans List.filter_sublist
    refine List.nodup_append.2 ⟨hw.nodup, ?_, ?_⟩
    · exact (hsub.map Op.run).nodup hruns
    · -- what ran before was reached before; what runs now was not
      intro a ha b hb hab
      obtain ⟨⟨h', r⟩, hlog, rfl⟩ := List.mem_map.1 ha
      obtain ⟨op', hop', rfl⟩ := List.mem_map.1 hb
      obtain ⟨op, hop, hrun, hfirst, -⟩ := (hw.mem_log h' r).1 hlog
      simp only [List.mem_filter, decide_eq_true_eq, Option.isNone_iff_eq_none] at hop'
      have hsame : op = op' := List.inj_on_of_nodup_map hruns hop hop'.1.1 (hrun.trans hab)
      rw [hsame, hop'.1.2] at hfirst
      cases hfirst

end Drain

/-- The positions `zipIdx` gives grow along the list. -/
lemma pairwise_zipIdx_lt {α : Type*} : ∀ (l : List α) (k : ℕ), (l.zipIdx k).Pairwise fun x y => x.2 < y.2
  | [], _ => .nil
  | a :: l, k => by
    rw [List.zipIdx_cons, List.pairwise_cons]
    refine ⟨fun y hy => ?_, pairwise_zipIdx_lt l (k + 1)⟩
    have := (List.mem_zipIdx hy).1
    omega

/-- Each operation of the schedule does its own thing: one start and one cancel for each
pre-migration of each upgrade epoch. -/
theorem nodup_runs_unsortedSchedule (sm : StateManager) : ((unsortedSchedule sm).map Op.run).Nodup := by
  unfold unsortedSchedule
  rw [List.map_flatMap, List.nodup_flatMap]
  have hkeys : sm.stateMigrations.entries.Pairwise fun a b => a.1 ≠ b.1 :=
    List.pairwise_map.1 sm.stateMigrations.nodupKeys
  -- every run of an entry's operations names the entry's epoch
  have hepoch : ∀ e : (_ : ℤ) × Migration, ∀ r ∈ (e.2.preMigrations.zipIdx.flatMap fun x =>
      premOps e.1 x.1 x.2).map Op.run, r.upgradeEpoch = e.1 := by
    intro e r hr
    simp only [List.mem_map, List.mem_flatMap, premOps, List.mem_cons, List.not_mem_nil,
      or_false] at hr
    obtain ⟨op, ⟨x, -, rfl | rfl⟩, rfl⟩ := hr <;> rfl
  refine ⟨fun e _ => ?_, hkeys.imp fun hne => ?_⟩
  · rw [List.map_flatMap, List.nodup_flatMap]
    refine ⟨fun x _ => by simp [premOps], (pairwise_zipIdx_lt _ 0).imp fun hlt => ?_⟩
    -- two pre-migrations of one upgrade differ in their index
    simp only [Function.onFun, premOps, List.map_cons, List.map_nil, List.disjoint_cons_left,
      List.disjoint_cons_right, List.disjoint_nil_left, List.mem_cons, List.not_mem_nil, or_false,
      OpRun.mk.injEq, true_and, reduceCtorEq, and_false, not_false_eq_true, and_true, false_or]
    exact ⟨Nat.ne_of_gt hlt, Nat.ne_of_gt hlt⟩
  · intro r hr hr'
    exact hne ((hepoch _ r hr).symm.trans (hepoch _ r hr'))

/-- Upgrades at other epochs leave the migration at epoch `k` as it was. -/
lemma lookup_foldl_addUpgrade_of_ne {k : ℤ} :
    ∀ (us : List Upgrade) (m : AList fun _ : ℤ => Migration) (nvs : List VersionSpec) (v : ℕ),
      (∀ u ∈ us, u.height ≠ k) → (us.foldl addUpgrade (m, nvs, v)).1.lookup k = m.lookup k
  | [], _, _, _, _ => rfl
  | u :: us, m, nvs, v, hne => by
    rw [List.foldl_cons, addUpgrade]
    rw [lookup_foldl_addUpgrade_of_ne us _ _ _ fun w hw => hne w (List.mem_cons_of_mem _ hw)]
    split
    · exact AList.lookup_insert_ne (hne u List.mem_cons_self).symm
    · rfl

/-- An enabled upgrade with pre-migrations has its migration kept under its epoch: no other
upgrade of an accepted schedule has that epoch. -/
theorem lookup_stateMigrations {us : List Upgrade} (hvalid : Valid us) {u : Upgrade} (hu : u ∈ us)
    (h0 : 0 ≤ u.height) (hpre : u.preMigrations ≠ []) :
    (us.foldl addUpgrade (∅, [], 0)).1.lookup u.height = some ⟨u.migration, u.preMigrations⟩ := by
  obtain ⟨pre, post, rfl⟩ := List.append_of_mem hu
  have hpair := (List.pairwise_append.1 hvalid.ordered.pairwise).2.1
  rw [List.pairwise_cons] at hpair
  rw [List.foldl_append, List.foldl_cons]
  obtain ⟨m, nvs, v⟩ := pre.foldl addUpgrade (∅, [], 0)
  rw [addUpgrade]
  -- every later upgrade comes at a later epoch
  rw [lookup_foldl_addUpgrade_of_ne post _ _ _ fun w hw => Int.ne_of_gt ((hpair.1 w hw).2 h0),
    if_pos (Or.inr hpre), AList.lookup_insert]

section Worker

variable (sort : List Op → List Op) (hsort : SortSlice.Sorts opLess sort)
include hsort

/-- **Every run of the worker** drains its schedule head by head (`Drained`). -/
theorem drained_run (sm : StateManager) (heads : List ℤ) :
    Drained (sort (unsortedSchedule sm)) heads (Run.run Worker.headChange (Worker.init sort sm) heads) := by
  obtain ⟨hperm, hpair⟩ := hsort (unsortedSchedule sm)
  have hsorted : (sort (unsortedSchedule sm)).Pairwise fun a b => a.after ≤ b.after :=
    hpair.imp fun h => by simpa [opLess] using h
  have hruns : ((sort (unsortedSchedule sm)).map Op.run).Nodup :=
    (hperm.map Op.run).nodup_iff.2 (nodup_runs_unsortedSchedule sm)
  refine Run.run_invariant_prefix (Q := fun _ => True)
    (fun pre w h _ hw => hw.headChange hsorted hruns h) heads (fun _ _ => trivial) ?_
  refine ⟨?_, fun h r => ?_, List.nodup_nil⟩
  · exact (List.filter_eq_self.2 fun _ _ => rfl).symm
  · simp [Worker.init, firstAtOrPast]

/-- **What the worker runs.**  On every sequence of heads, an operation of a pre-migration runs
at a head exactly when that head is the first notified at or past its epoch and its window
allows it there; and no operation runs twice. -/
theorem mem_log_iff (sm : StateManager) (heads : List ℤ) (height : ℤ) (r : OpRun) :
    (height, r) ∈ (Run.run Worker.headChange (Worker.init sort sm) heads).log ↔
      ∃ op ∈ unsortedSchedule sm, op.run = r ∧ firstAtOrPast heads op.after = some height ∧
        op.Runs height := by
  rw [(drained_run sort hsort sm heads).mem_log]
  exact exists_congr fun op => and_congr_left' (hsort _).1.mem_iff

/-- **A pre-migration close to genesis starts at the first head, past its window.**  In a
schedule `Validate` accepts, take an upgrade at a non-negative epoch `U` and a pre-migration of it
whose `DontStartWithin` exceeds `U`: its window `[U - StartWithin, U - DontStartWithin)` holds no
epoch of the chain, yet its `notAfter`, `U - DontStartWithin`, is negative, which the worker takes
for "always run".  Whatever the order of the sort and the heads after it, the pre-migration starts
at the first head, at an epoch at or past `U - DontStartWithin`. -/
theorem preMigration_starts_past_window {us : List Upgrade} {sm : StateManager}
    (hsm : newStateManagerWithUpgradeSchedule us = .ok sm) {u : Upgrade} (hu : u ∈ us)
    (h0 : 0 ≤ u.height) {i : ℕ} {m : PreMigration} (hm : u.preMigrations[i]? = some m)
    (hearly : u.height < m.dontStartWithin) {height : ℤ} (hh : 0 ≤ height) (heads : List ℤ) :
    (height, ⟨u.height, i, .start⟩) ∈
        (Run.run Worker.headChange (Worker.init sort sm) (height :: heads)).log ∧
      u.height - m.dontStartWithin ≤ height := by
  obtain ⟨hvalid, -, hsm'⟩ := newStateManager_eq_ok hsm
  obtain ⟨-, -, hmig⟩ := hsm' (List.ne_nil_of_mem hu)
  have hmem : m ∈ u.preMigrations := List.mem_of_getElem? hm
  have hvm := hvalid.preMigrations u hu m hmem
  have hd := hvm.dontStart (by omega)
  -- the start operation, with its `notAfter` not clamped and negative
  have hop : (⟨u.height - m.startWithin, u.height - m.dontStartWithin, ⟨u.height, i, .start⟩⟩ : Op) ∈
      unsortedSchedule sm := by
    have hlookup := lookup_stateMigrations hvalid hu h0 (List.ne_nil_of_mem hmem)
    rw [← hmig] at hlookup
    refine List.mem_flatMap.2 ⟨⟨u.height, ⟨u.migration, u.preMigrations⟩⟩,
      AList.mem_lookup_iff.1 hlookup, List.mem_flatMap.2 ⟨(m, i), ?_, ?_⟩⟩
    · exact List.mem_zipIdx_iff_getElem?.2 hm
    · simp only [premOps]
      rw [if_neg (by omega)]
      exact List.mem_cons_self
  refine ⟨(mem_log_iff sort hsort sm _ height _).2 ⟨_, hop, rfl, ?_,
    .inl (show u.height - m.dontStartWithin < 0 by omega)⟩, by omega⟩
  -- the first head is past the start epoch, which is before genesis
  have hfirst : decide (u.height - m.startWithin ≤ height) = true := by
    rw [decide_eq_true_eq]
    omega
  simp only [firstAtOrPast, List.find?_cons, hfirst]

end Worker

lemma opLess_trans (a b c : Op) (hab : opLess b a = false) (hbc : opLess c b = false) :
    opLess c a = false := by
  simp only [opLess, decide_eq_false_iff_not, Int.not_lt] at hab hbc ⊢
  omega

lemma opLess_total (a b : Op) : opLess a b = false ∨ opLess b a = false := by
  simp only [opLess, decide_eq_false_iff_not, Int.not_lt]
  omega

/-- The hyperdrive upgrade at epoch `20`, as a devnet may set it, with its two pre-migrations. -/
def hyperdriveAt20 : Upgrade :=
  ⟨20, 13, true, [⟨120, 60, 35⟩, ⟨30, 15, 5⟩]⟩

/-- On a devnet with the hyperdrive upgrade at epoch `20`, its first pre-migration starts at the
genesis head, `60` epochs inside the window it should not start in. -/
theorem preMigration_starts_past_window_devnet :
    ∃ sm, newStateManagerWithUpgradeSchedule [hyperdriveAt20] = .ok sm ∧
      ((0 : ℤ), (⟨20, 0, .start⟩ : OpRun)) ∈ (Run.run Worker.headChange
        (Worker.init (fun l => l.insertionSort fun a b => (!opLess b a) = true) sm) [0]).log ∧
      (20 : ℤ) - 60 ≤ 0 := by
  have hsm : newStateManagerWithUpgradeSchedule [hyperdriveAt20] = .ok _ := rfl
  exact ⟨_, hsm, preMigration_starts_past_window _
    (SortSlice.insertionSort_sorts opLess_trans opLess_total) hsm List.mem_cons_self (by decide)
    (i := 0) (m := ⟨120, 60, 35⟩) rfl (by decide) le_rfl []⟩

/-- **What the pre-migration worker runs, once.**  Whatever sort orders the schedule by epoch
and whatever the heads, an operation of a pre-migration runs at a head exactly when that head is
the first notified at or past its epoch and its window allows it there, and no operation runs
twice. -/
theorem preMigrationWorker_log (sort : List Op → List Op) (hsort : SortSlice.Sorts opLess sort)
    (sm : StateManager) (heads : List ℤ) :
    (∀ height r, (height, r) ∈ (Run.run Worker.headChange (Worker.init sort sm) heads).log ↔
      ∃ op ∈ unsortedSchedule sm, op.run = r ∧ firstAtOrPast heads op.after = some height ∧
        op.Runs height) ∧
      ((Run.run Worker.headChange (Worker.init sort sm) heads).log.map Prod.snd).Nodup :=
  ⟨mem_log_iff sort hsort sm heads, (drained_run sort hsort sm heads).nodup⟩

/-- The devnet's worker, by insertion sort, on heads at epochs 0, 10 and 30. -/
theorem preMigrationWorker_log_devnet :
    ∃ sm, newStateManagerWithUpgradeSchedule [hyperdriveAt20] = .ok sm ∧
      (∀ height r, (height, r) ∈ (Run.run Worker.headChange
          (Worker.init (fun l => l.insertionSort fun a b => (!opLess b a) = true) sm) [0, 10, 30]).log ↔
        ∃ op ∈ unsortedSchedule sm, op.run = r ∧ firstAtOrPast [0, 10, 30] op.after = some height ∧
          op.Runs height) ∧
      ((Run.run Worker.headChange (Worker.init (fun l => l.insertionSort fun a b => (!opLess b a) = true)
        sm) [0, 10, 30]).log.map Prod.snd).Nodup := by
  have hsm : newStateManagerWithUpgradeSchedule [hyperdriveAt20] = .ok _ := rfl
  exact ⟨_, hsm, preMigrationWorker_log _ (SortSlice.insertionSort_sorts opLess_trans opLess_total)
    _ [0, 10, 30]⟩

end Stmgr

end Lotus
