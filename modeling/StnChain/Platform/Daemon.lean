import StnChain.Config
import StnChain.Platform.Lifetime
import StnChain.Platform.Runtime

/-!
# The daemon

The Linux process over its starts (`stn_linux_app`).  A start makes a mining service of the
stored history, publishes it and lets the threads take their turns, until the process stops, is
killed in a turn or between two, or loses its power.  `daemon_reports` says that what clients
have been told about the history is kept from one process to the next.
-/

namespace StnChain

open Publication

section

variable [Primitives]

/-! ## Starts -/

/-- A start with what it finds apart from the storage: whether the ports and the handlers of
signals can be had, the configuration file as far as `read_file` reads it, the clock, what stands
on the stack of a call, and what memory reads as that was given back. -/
structure DaemonStart extends Startup where
  listens : Bool
  config : Option Bytes
  clock : ℕ → UInt64
  stackId : Octets 32
  freed : LinuxStorage → ℕ → ℕ → ℕ → UInt8

/-- `STN_INTERNAL_MINER_DEFAULT_NONCE_BUDGET`. -/
def internalMinerDefaultNonceBudget : UInt64 := 256

/-- `STN_INTERNAL_MINER_DEFAULT_DUTY_PERMILLE`. -/
def internalMinerDefaultDutyPermille : ℕ := 20

/-- The worker a configuration asks for. -/
def Config.worker (config : Config) : Option MinerWorker :=
  if config.internalMinerEnabled then
    config.minerWallet.map fun wallet =>
      ⟨⟨.identity, wallet.identifier⟩, 0, internalMinerDefaultNonceBudget,
        internalMinerDefaultDutyPermille⟩
  else none

/-- The mining service `stn_linux_app` sets up.  With `--dev` it offers the transaction of the
development block in place of a pool. -/
def daemonService (u : DaemonStart) (c : ChainContext) (active : ChainState) (capacity : ℕ)
    (x : LinuxStorage) : MiningService LinuxStorage :=
  let dev := match u.anchor with
    | .development => true
    | _ => false
  { chain := { c with hashProvider := ⟨some Primitives.sha256⟩ }
    sha256Selected := true
    sha256_of_selected := fun _ => rfl
    storage := linuxDevice
    device := x
    neededBytes := fun x => (linuxRead 0 x).1.2.getD 0
    body := if dev then (developmentGenesis.drop 168).take 196 else []
    transactionCount := if dev then 1 else 0
    snapshotCapacity := capacity
    templateCapacity := blockMaxSize
    workspace := ⟨capacity, capacity⟩
    active := active
    pending := if dev then none else some PendingPool.empty
    intelligence := none
    pendingBodyCapacity := if dev then 0 else blockMaxBody
    ownsBuffers := true
    timestampNow := some u.clock
    clockCalls := 0
    lease := none
    stage := .cleared
    stackId := u.stackId
    freed := u.freed }

variable {ι τ : Type}

/-- The start of `stn_linux_app` up to its threads. -/
def daemonStartup (u : DaemonStart) (x : LinuxStorage) :
    Option (Runtime ι LinuxStorage) × LinuxStorage :=
  match nodeStartup u.toStartup x with
  | (none, y) => (none, y)
  | (some (c, active), y) =>
      match u.config.map configDecode with
      | some (.ok config) =>
          if !u.listens then (none, y)
          else
            let capacity := startupCapacity u.toStartup x.snapshot c.genesisBytes
            (some ⟨daemonService u c active capacity y, fun _ => .cleared, publishInfo active,
              config.worker⟩, y)
      | _ => (none, y)

/-! ## Runs -/

/-- The process, or what it has left. -/
inductive Daemon (ι : Type)
  | stopped (storage : LinuxStorage)
  | running (r : Runtime ι LinuxStorage)

/-- What the provider of the process is, or what the process has left of it. -/
def Daemon.storage : Daemon ι → LinuxStorage
  | .stopped x => x
  | .running r => r.service.device

/-- What happens to the process.  A turn may be killed in its replacement, or before its answer
is sent. -/
inductive DaemonEvent (ι τ : Type)
  | start (u : DaemonStart)
  | turn (event : RuntimeEvent ι τ) (kill : Option ℕ)
  | killed
  | powerLost (l : Loss UInt8)

/-- The process has ended, and with it its locks. -/
def LinuxStorage.ended (x : LinuxStorage) : LinuxStorage :=
  { x with locked := false, kill := none }

/-- A process in which the next replacement may be killed. -/
def Runtime.withKill (r : Runtime ι LinuxStorage) (kill : Option ℕ) : Runtime ι LinuxStorage :=
  { r with service := { r.service with device := { r.service.device with kill } } }

variable [DecidableEq ι]

/-- An event: what it leaves, and the frame that reaches a client. -/
def Daemon.step (d : Daemon ι) (event : DaemonEvent ι τ) : Daemon ι × Option Bytes :=
  match event, d with
  | .start u, .stopped x =>
      match daemonStartup u { x with kill := u.kill } with
      | (some r, y) => (if u.kill.isSome then .stopped y.ended else .running r, none)
      | (none, y) => (.stopped y.ended, none)
  | .start _, .running r => (.running r, none)
  | .turn event kill, .running r =>
      let turned := (r.withKill kill).turn event
      if kill.isSome then (.stopped turned.1.service.device.ended, none)
      else (.running turned.1, turned.2)
  | .turn _ _, .stopped x => (.stopped x, none)
  | .killed, d => (.stopped d.storage.ended, none)
  | .powerLost l, d =>
      (.stopped { d.storage.ended with disk := d.storage.disk.lose l }, none)

/-- Some events: what they leave, and the frames that reach clients. -/
def Daemon.run (d : Daemon ι) : List (DaemonEvent ι τ) → Daemon ι × List Bytes
  | [] => (d, [])
  | event :: rest =>
      let (next, sent) := d.step event
      let (last, later) := next.run rest
      (last, sent.toList ++ later)

/-! ## What a process keeps -/

/-- What holds between the events: the files show a history `v` of the context and nothing with
less work than at first, a process that runs is sound, and what has been published last is a
history `p` with no more work. -/
structure Daemon.Sound (c : ChainContext) (work : ℕ) (d : Daemon ι) (p v : StorageView) : Prop where
  durable : Node.Durable c work ⟨d.storage, none⟩
  stored : Holds c linuxDevice d.storage v
  runs : ∀ r, d = .running r →
    r.service.chain = c ∧ r.service.storage = linuxDevice ∧ r.Sound p v
  published : work ≤ p.state.cumulativeWork.toNat
  advances : p.Advances v

section Keeping

variable {c : ChainContext} {work : ℕ} {x y : LinuxStorage} {p v : StorageView} {d : Daemon ι}
  {r : Runtime ι LinuxStorage}

/-- The files show what they did, or one more image of a history with no less work. -/
theorem StorageUse.run_durable {active : ChainState} (h : Node.Durable c work ⟨x, none⟩)
    (hstored : Holds c linuxDevice x v) (use : StorageUse) :
    Node.Durable c work ⟨(use.run c linuxDevice (active, x)).2, none⟩ := by
  cases use with
  | read capacity =>
      have hshown := view_storageLoad (c := c) linux_quiet capacity x
      rw [lockedRead_eq_load] at hshown
      exact h.keep hshown
  | operation call =>
      obtain ⟨stored, hpersisted, hdecode⟩ := hstored
      obtain ⟨hfailed, hdone⟩ := shown_call c active call x
      cases hstatus : (call.run c linuxDevice active x).status with
      | error status => exact h.keep (hfailed status hstatus)
      | ok _ =>
          obtain ⟨image, hshown⟩ := hdone hstatus
          obtain ⟨image', blocks, himage, hdecode', -, hpublishes⟩ :=
            call.run_atomic.done hstatus
          rw [persisted_linuxDevice, (Prod.mk.inj hshown).1] at himage
          obtain rfl := Option.some.inj himage
          obtain ⟨f, hf, rfl⟩ := Option.map_eq_some_iff.mp hpersisted
          have hwork := (h.work_le hf hdecode).trans
            (hpublishes.work f.content v hpersisted hdecode).le
          exact h.publish hshown ⟨_, hdecode', hwork⟩

theorem storageUses_durable {active : ChainState} (h : Node.Durable c work ⟨x, none⟩)
    (hstored : Holds c linuxDevice x v) (hactive : active = v.state) (uses : List StorageUse) :
    Node.Durable c work ⟨(storageUses c linuxDevice uses (active, x)).2, none⟩ := by
  induction uses generalizing active x v with
  | nil => exact h
  | cons use uses ih =>
      obtain ⟨v', hstored', hactive', -⟩ :=
        use.run_coherent (p := (active, x)) hstored hactive
      exact ih (use.run_durable h hstored) hstored' hactive'

omit [DecidableEq ι] in
theorem Daemon.Sound.ended (h : d.Sound c work p v) :
    Daemon.Sound c work (.stopped d.storage.ended : Daemon ι) p v where
  durable := h.durable.keep rfl
  stored := h.stored
  runs r hr := by cases hr
  published := h.published
  advances := h.advances

omit [DecidableEq ι] in
theorem Runtime.Sound.withKill (h : r.Sound p v) (hstorage : r.service.storage = linuxDevice)
    (kill : Option ℕ) : (r.withKill kill).Sound p v := by
  obtain ⟨⟨⟨image, hpersisted, hdecode⟩, hactive⟩, haccepted, hinfo, hadvances⟩ := h
  refine ⟨⟨⟨image, ?_, hdecode⟩, hactive⟩, haccepted, hinfo, hadvances⟩
  rw [hstorage] at hpersisted
  change r.service.storage.persisted _ = _
  rw [hstorage]
  exact hpersisted

/-- A turn of a process, whether it is killed or not. -/
theorem Daemon.Sound.turned (h : Daemon.Sound c work (.running r) p v)
    (event : RuntimeEvent ι τ) (kill : Option ℕ) :
    ∃ p' v', Daemon.Sound c work (.running ((r.withKill kill).turn event).1) p' v' ∧
      p.Advances p' ∧ TurnEffect (r.withKill kill) ((r.withKill kill).turn event) p v p' v' := by
  obtain ⟨hchain, hstorage, hsound⟩ := h.runs r rfl
  have hkill := hsound.withKill hstorage kill
  have hbefore : Holds c linuxDevice (r.withKill kill).service.device v := by
    rw [← hchain, ← hstorage]
    exact hkill.coherent.stored
  obtain ⟨p', v', heffect⟩ := hkill.turn event
  have hrefines := Runtime.turn_refines hkill.coherent event
  have hadvances := heffect.publishes hkill
  obtain ⟨hchain', hstorage', uses, huses⟩ := hrefines
  have hdevice : ((r.withKill kill).turn event).1.service.device =
      (storageUses c linuxDevice uses (r.service.active, (r.withKill kill).service.device)).2 := by
    rw [← hchain, ← hstorage]
    exact (Prod.mk.inj huses).2
  have hstored := heffect.sound.coherent.stored
  rw [hchain', hstorage'] at hstored
  refine ⟨p', v', ⟨?_, ?_, ?_, h.published.trans hadvances.work_le, heffect.sound.advances⟩,
    hadvances, heffect⟩
  · change Node.Durable c work ⟨((r.withKill kill).turn event).1.service.device, none⟩
    rw [hdevice]
    have hkept : Node.Durable c work ⟨(r.withKill kill).service.device, none⟩ := h.durable.keep rfl
    exact storageUses_durable hkept hbefore hkill.coherent.active uses
  · exact hchain ▸ hstorage ▸ hstored
  · intro r' hr'
    obtain rfl := Daemon.running.inj hr'
    exact ⟨hchain'.trans hchain, hstorage'.trans hstorage, heffect.sound⟩

/-- What an event leaves, and what it tells a client. -/
structure DaemonEffect (c : ChainContext) (work : ℕ) (next : Daemon ι × Option Bytes)
    (p v : StorageView) : Prop where
  sound : next.1.Sound c work p v
  informs : ∀ frame payload, next.2 = some frame → AnswersWith frame .info payload →
    Accepts c p.blocks p.state ∧ payload = infoPayload p.state
  reports : ∀ frame reported, next.2 = some frame → reportedWork frame = some reported →
    reported = p.state.cumulativeWork.toNat

omit [DecidableEq ι] in
theorem DaemonEffect.silent (h : d.Sound c work p v) : DaemonEffect c work (d, none) p v where
  sound := h
  informs _ _ hsent := by cases hsent
  reports _ _ hsent := by cases hsent

omit [DecidableEq ι] in
/-- The files hold the same history as before. -/
theorem holds_of_shown (h : Holds c linuxDevice x v) (hshown : y.shown = x.shown) :
    Holds c linuxDevice y v := by
  obtain ⟨image, hpersisted, hdecode⟩ := h
  refine ⟨image, ?_, hdecode⟩
  rw [persisted_linuxDevice, (Prod.mk.inj hshown).1]
  exact hpersisted

theorem nodeContext_provider {genesis : Bytes} (h : nodeContext genesis = some c) :
    c.hashProvider = ⟨some Primitives.sha256⟩ := by
  unfold nodeContext at h
  split at h
  · cases h
  split at h
  · cases h
  · rw [← Option.some.inj h]

omit [DecidableEq ι] in
/-- A start over a stored history leaves the files, and serves that history if it serves. -/
theorem daemonStartup_spec (hc : nodeContext c.genesisBytes = some c)
    (hstored : Holds c linuxDevice x v) (u : DaemonStart) :
    (daemonStartup (ι := ι) u x).2.shown = x.shown ∧
      ∀ r, (daemonStartup (ι := ι) u x).1 = some r →
        r.service.device = (daemonStartup (ι := ι) u x).2 ∧ r.service.chain = c ∧
          r.service.storage = linuxDevice ∧ r.service.active = v.state ∧
          r.info = publishInfo v.state := by
  obtain ⟨image, hpersisted, hdecode⟩ := hstored
  obtain ⟨f, htarget, rfl⟩ := Option.map_eq_some_iff.mp hpersisted
  obtain ⟨hshown, hrunning⟩ := nodeStartup_spec hc htarget hdecode u.toStartup
  unfold daemonStartup
  split
  · next y hnone =>
      rw [hnone] at hshown
      exact ⟨hshown, by simp⟩
  next c' active y hsome =>
  rw [hsome] at hshown hrunning
  obtain ⟨rfl, rfl⟩ := hrunning c' active rfl
  split
  · split
    · exact ⟨hshown, by simp⟩
    · refine ⟨hshown, fun r hr => ?_⟩
      obtain rfl := Option.some.inj hr
      refine ⟨rfl, ?_, rfl, rfl, rfl⟩
      simp only [daemonService, ← nodeContext_provider hc]
  · exact ⟨hshown, by simp⟩

/-- A start over a stored history runs with it or ends. -/
theorem Daemon.Sound.started (hc : nodeContext c.genesisBytes = some c)
    (h : Daemon.Sound c work (.stopped x : Daemon ι) p v) (u : DaemonStart) :
    DaemonEffect c work ((Daemon.stopped x : Daemon ι).step (.start u : DaemonEvent ι τ)) v v := by
  have hstored : Holds c linuxDevice { x with kill := u.kill } v := h.stored
  obtain ⟨hshown, hserves⟩ := daemonStartup_spec (ι := ι) hc hstored u
  have hdurable : Node.Durable c work
      ⟨(daemonStartup (ι := ι) u { x with kill := u.kill }).2, none⟩ := h.durable.keep hshown
  have hkept := holds_of_shown hstored hshown
  have hwork : work ≤ v.state.cumulativeWork.toNat := h.published.trans h.advances.work_le
  have hended : Daemon.Sound c work
      (.stopped (daemonStartup (ι := ι) u { x with kill := u.kill }).2.ended : Daemon ι) v v :=
    ⟨hdurable.keep rfl, hkept, by simp, hwork, .inl rfl⟩
  simp only [Daemon.step]
  generalize daemonStartup (ι := ι) u { x with kill := u.kill } = started at *
  obtain ⟨runtime, y⟩ := started
  cases runtime with
  | none => exact .silent hended
  | some r =>
      dsimp only
      split
      · exact .silent hended
      · obtain ⟨hdevice, hchain, hstorage, hactive, hinfo⟩ := hserves r rfl
        have hcoherent : r.service.Coherent v := by
          refine ⟨?_, hactive⟩
          rw [hchain, hstorage, hdevice]
          exact hkept
        refine .silent ⟨?_, ?_, ?_, hwork, .inl rfl⟩
        · exact hdurable.keep (congrArg LinuxStorage.shown hdevice)
        · exact hcoherent.stored |> fun hheld => by rwa [hchain, hstorage] at hheld
        · intro r' hr'
          obtain rfl := Daemon.running.inj hr'
          exact ⟨hchain, hstorage, hcoherent, hcoherent.accepted, hinfo, .inl rfl⟩

/-- What every event keeps.  Only a loss of power may undo what has been published. -/
theorem Daemon.Sound.step (hc : nodeContext c.genesisBytes = some c) (h : d.Sound c work p v)
    (event : DaemonEvent ι τ) :
    ∃ p' v', DaemonEffect c work (d.step event) p' v' ∧
      ((∀ l, event ≠ .powerLost l) → p.Advances p') := by
  cases event with
  | start u =>
      cases d with
      | stopped x => exact ⟨v, v, h.started hc u, fun _ => h.advances⟩
      | running r => exact ⟨p, v, .silent h, fun _ => .inl rfl⟩
  | turn event kill =>
      cases d with
      | stopped x => exact ⟨p, v, .silent h, fun _ => .inl rfl⟩
      | running r =>
          obtain ⟨p', v', hsound, hadvances, heffect⟩ := h.turned event kill
          refine ⟨p', v', ?_, fun _ => hadvances⟩
          simp only [Daemon.step]
          split
          · exact .silent hsound.ended
          · refine ⟨hsound, fun frame payload hsent hanswers => ⟨?_, ?_⟩, heffect.reports⟩
            · obtain ⟨hchain, -, hturned⟩ := hsound.runs _ rfl
              exact hchain ▸ hturned.accepted
            · exact heffect.informs frame payload hsent hanswers
  | killed => exact ⟨p, v, .silent h.ended, fun _ => .inl rfl⟩
  | powerLost l =>
      obtain ⟨image, hpersisted, hdecode⟩ := h.stored
      obtain ⟨f, htarget, rfl⟩ := Option.map_eq_some_iff.mp hpersisted
      have hholds : Node.Holds c ⟨d.storage, none⟩ v := ⟨⟨f, htarget, hdecode⟩, by simp⟩
      obtain ⟨hdurable, v', ⟨⟨f', htarget', hdecode'⟩, -⟩, -⟩ :=
        nodeStep_holds hc h.durable hholds (.powerLost l)
      have hwork := hdurable.work_le htarget' hdecode'
      refine ⟨v', v', .silent ⟨hdurable, ⟨f'.content, ?_, hdecode'⟩, by simp, hwork, .inl rfl⟩,
        fun hpower => absurd rfl (hpower l)⟩
      exact congrArg (Option.map File.content) htarget'

/-! ## What clients are told -/

/-- What some events leave, and what they tell clients.  While the power lasts, the works they
are told never decrease and lie between what was published before and after. -/
structure DaemonRunEffect (c : ChainContext) (work : ℕ) (ran : Daemon ι × List Bytes) (power : Prop)
    (p p' v' : StorageView) : Prop where
  sound : ran.1.Sound c work p' v'
  informs : ∀ frame ∈ ran.2, ∀ payload, AnswersWith frame .info payload →
    ∃ u : StorageView, Accepts c u.blocks u.state ∧ work ≤ u.state.cumulativeWork.toNat ∧
      payload = infoPayload u.state
  least : ∀ reported ∈ reportedWorks ran.2, work ≤ reported
  later : power → p.Advances p'
  reports : power → ∀ reported ∈ reportedWorks ran.2,
    p.state.cumulativeWork.toNat ≤ reported ∧ reported ≤ p'.state.cumulativeWork.toNat
  ordered : power → (reportedWorks ran.2).Pairwise (· ≤ ·)

theorem Daemon.Sound.run (hc : nodeContext c.genesisBytes = some c) (h : d.Sound c work p v)
    (events : List (DaemonEvent ι τ)) :
    ∃ p' v', DaemonRunEffect c work (d.run events) (∀ l, .powerLost l ∉ events) p p' v' := by
  induction events generalizing d p v with
  | nil =>
      exact ⟨p, v, h, by simp [Daemon.run], by simp [Daemon.run, reportedWorks],
        fun _ => .inl rfl, by simp [Daemon.run, reportedWorks],
        by simp [Daemon.run, reportedWorks]⟩
  | cons event rest ih =>
      obtain ⟨p₁, v₁, hstep, hlater⟩ := h.step hc event
      obtain ⟨p₂, v₂, hrest⟩ := ih hstep.sound
      have hsent : (d.run (event :: rest)).2 =
          (d.step event).2.toList ++ ((d.step event).1.run rest).2 := rfl
      have hfirst : ∀ reported ∈ reportedWorks (d.step event).2.toList,
          reported = p₁.state.cumulativeWork.toNat := by
        intro reported hreported
        obtain ⟨frame, hframe, hwork⟩ := List.mem_filterMap.mp hreported
        exact hstep.reports frame reported (Option.mem_toList.mp hframe) hwork
      -- While the power lasts, the first event and the rest publish in order.
      have hpower : (∀ l, .powerLost l ∉ event :: rest) →
          (∀ l, event ≠ .powerLost l) ∧ ∀ l, .powerLost l ∉ rest := fun hall =>
        ⟨fun l heq => hall l (heq ▸ List.mem_cons_self),
          fun l hmem => hall l (List.mem_cons_of_mem event hmem)⟩
      refine ⟨p₂, v₂, hrest.sound, ?_, ?_, ?_, ?_, ?_⟩
      · intro frame hframe payload hanswers
        rw [hsent, List.mem_append, Option.mem_toList] at hframe
        rcases hframe with hframe | hframe
        · obtain ⟨haccepted, hpayload⟩ := hstep.informs frame payload hframe hanswers
          exact ⟨p₁, haccepted, hstep.sound.published, hpayload⟩
        · exact hrest.informs frame hframe payload hanswers
      · intro reported hreported
        rw [hsent, reportedWorks_append, List.mem_append] at hreported
        rcases hreported with hreported | hreported
        · rw [hfirst reported hreported]
          exact hstep.sound.published
        · exact hrest.least reported hreported
      · intro hall
        obtain ⟨hevent, hall⟩ := hpower hall
        exact (hlater hevent).trans (hrest.later hall)
      · intro hall reported hreported
        obtain ⟨hevent, hall⟩ := hpower hall
        rw [hsent, reportedWorks_append, List.mem_append] at hreported
        rcases hreported with hreported | hreported
        · rw [hfirst reported hreported]
          exact ⟨(hlater hevent).work_le, (hrest.later hall).work_le⟩
        · obtain ⟨hafter, hbefore⟩ := hrest.reports hall reported hreported
          exact ⟨(hlater hevent).work_le.trans hafter, hbefore⟩
      · intro hall
        obtain ⟨hevent, hall⟩ := hpower hall
        rw [hsent, reportedWorks_append, List.pairwise_append]
        refine ⟨reportedWorks_single _, hrest.ordered hall, fun reported hreported later hmem => ?_⟩
        rw [hfirst reported hreported]
        exact (hrest.reports hall later hmem).1

/-- From a stopped process whose history has reached the medium on, over every run of starts,
turns of the threads, kills and losses of power: INFO describes an accepted history with no less
work than at the start, and a client is told no less.  From any point on at which the power
lasts, the works clients are told never decrease, from one process to the next, and the history
that is stored at the end has no less work than they were told. -/
theorem daemon_reports {f : File UInt8} (hc : nodeContext c.genesisBytes = some c)
    (htarget : x.disk.target = some f) (hsynced : f.synced = true) (hpast : x.disk.past = [])
    (hdecode : storageDecode c f.content = .ok v) (first rest : List (DaemonEvent ι τ)) :
    let before := (Daemon.stopped x : Daemon ι).run first
    let after := before.1.run rest
    ∃ u, Holds c linuxDevice after.1.storage u ∧
      v.state.cumulativeWork.toNat ≤ u.state.cumulativeWork.toNat ∧
      (∀ frame ∈ before.2 ++ after.2, ∀ payload, AnswersWith frame .info payload →
        ∃ w : StorageView, Accepts c w.blocks w.state ∧
          v.state.cumulativeWork.toNat ≤ w.state.cumulativeWork.toNat ∧
          payload = infoPayload w.state) ∧
      (∀ reported ∈ reportedWorks (before.2 ++ after.2),
        v.state.cumulativeWork.toNat ≤ reported) ∧
      ((∀ l, .powerLost l ∉ rest) → (reportedWorks after.2).Pairwise (· ≤ ·) ∧
        ∀ reported ∈ reportedWorks after.2, reported ≤ u.state.cumulativeWork.toNat) := by
  intro before after
  have hdurable : Node.Durable c v.state.cumulativeWork.toNat ⟨x, none⟩ := by
    constructor
    · intro g hg
      rw [htarget, hpast, List.mem_singleton] at hg
      obtain rfl := Option.some.inj hg
      exact ⟨hsynced, v, hdecode, le_rfl⟩
    · rw [htarget, hpast, List.mem_singleton]
      exact fun h => Option.some_ne_none f h.symm
  have hstored : Holds c linuxDevice x v :=
    ⟨f.content, congrArg (Option.map File.content) htarget, hdecode⟩
  have hstopped : Daemon.Sound c v.state.cumulativeWork.toNat (.stopped x : Daemon ι) v v :=
    ⟨hdurable, hstored, by simp, le_rfl, .inl rfl⟩
  obtain ⟨p₁, v₁, hfirst⟩ := hstopped.run hc first
  obtain ⟨p₂, u, hrest⟩ := hfirst.sound.run hc rest
  refine ⟨u, hrest.sound.stored, hrest.sound.published.trans hrest.sound.advances.work_le,
    ?_, ?_, fun hpower => ⟨hrest.ordered hpower, fun reported hreported => ?_⟩⟩
  · intro frame hframe payload hanswers
    rcases List.mem_append.mp hframe with hframe | hframe
    · exact hfirst.informs frame hframe payload hanswers
    · exact hrest.informs frame hframe payload hanswers
  · intro reported hreported
    rw [reportedWorks_append, List.mem_append] at hreported
    rcases hreported with hreported | hreported
    · exact hfirst.least reported hreported
    · exact hrest.least reported hreported
  · exact (hrest.reports hpower reported hreported).2.trans hrest.sound.advances.work_le

end Keeping

end

section Sample

attribute [local instance] Sample.storing

namespace Sample

/-- A start over the sample history, without a miner. -/
def daemonStart : DaemonStart where
  anchor := .selected (some genesis)
  readable := true
  statted := true
  kill := none
  listens := true
  config := some (ascii "\x7b\x7d")
  clock := fun _ => 0
  stackId := 0
  freed _ _ _ _ := 0

/-- The process answers INFO, is killed in a request, is started again and answers INFO. -/
def lives : List (DaemonEvent Bool Bytes) :=
  let ask := RuntimeEvent.request false (rpcHeaderBytes ⟨1, 1, .ok, 7, []⟩) zeroFrame
  [.start daemonStart, .turn ask none, .turn ask (some 2), .start daemonStart, .turn ask none]

end Sample

open Sample

theorem sample_daemon_reports : ∃ t u,
    storageDecode storingContext (imageOf [genesis]) = .ok ⟨[genesis], t⟩ ∧
    Holds storingContext linuxDevice
      ((Daemon.stopped storingNode.storage : Daemon Bool).run lives).1.storage u ∧
    (reportedWorks ((Daemon.stopped storingNode.storage : Daemon Bool).run lives).2).Pairwise
      (· ≤ ·) := by
  obtain ⟨t, ht, -⟩ := accepts_genesis
  have hv := storageDecode_of_encode (by decide) ht
    (storageEncode_imageOf ht (by decide) (by decide +kernel))
  obtain ⟨u, hu, -, -, -, hordered⟩ := daemon_reports (ι := Bool) (τ := Bytes)
    (c := storingContext) (x := storingNode.storage) nodeContext_sample rfl rfl rfl hv [] lives
  exact ⟨t, u, hv, hu, (hordered (by simp [lives])).1⟩

end Sample

end StnChain
