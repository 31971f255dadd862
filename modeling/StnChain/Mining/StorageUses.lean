import StnChain.Mining.Atomicity

/-!
# The storage under the mining service

A service of `stn_mining.c` keeps the state of the stored history active.  While it does, a
request refines the storage operations of `stn_storage.c`: what it makes of the provider and of
the active state is what a sequence of provider reads and of operations on the active state
makes of them, `MiningService.Coherent.handle`.  So the active state stays that of the stored
history, and another history is stored only with more work.
-/

namespace StnChain

section

variable [Primitives] {σ : Type}

/-! ## Uses of a provider -/

/-- A use of the storage: a read under the exclusion, or an operation on the active state. -/
inductive StorageUse
  | read (capacity : ℕ)
  | operation (call : StorageCall)

/-- What a read under the exclusion makes of the provider. -/
def lockedRead (d : StorageDevice σ) (capacity : ℕ) (x : σ) : σ :=
  match d.acquire x with
  | (.error _, x) => x
  | (.ok (), x) => d.release (d.read capacity x).2

/-- The active state and the provider after a use. -/
def StorageUse.run (c : ChainContext) (d : StorageDevice σ) (use : StorageUse)
    (p : ChainState × σ) : ChainState × σ :=
  match use with
  | .read capacity => (p.1, lockedRead d capacity p.2)
  | .operation call => ((call.run c d p.1 p.2).active, (call.run c d p.1 p.2).device)

/-- The active state and the provider after some uses. -/
def storageUses (c : ChainContext) (d : StorageDevice σ) (uses : List StorageUse)
    (p : ChainState × σ) : ChainState × σ :=
  uses.foldl (fun p use => use.run c d p) p

/-- A history, or one with more work in its place. -/
def StorageView.Advances (v v' : StorageView) : Prop :=
  v' = v ∨ v.state.cumulativeWork.toNat < v'.state.cumulativeWork.toNat

variable {c : ChainContext} {d : StorageDevice σ} {v v' v'' : StorageView}

omit [Primitives] in
theorem StorageView.Advances.work_le (h : v.Advances v') :
    v.state.cumulativeWork.toNat ≤ v'.state.cumulativeWork.toNat := by
  rcases h with hsame | hmore
  · rw [hsame]
  · exact hmore.le

omit [Primitives] in
theorem StorageView.Advances.trans (h : v.Advances v') (h' : v'.Advances v'') :
    v.Advances v'' := by
  rcases h' with hsame | hmore
  · rw [hsame]
    exact h
  · exact .inr (lt_of_le_of_lt h.work_le hmore)

omit [Primitives] in
theorem persisted_lockedRead (capacity : ℕ) (x : σ) :
    d.persisted (lockedRead d capacity x) = d.persisted x := by
  have hacquire := d.acquire_persisted x
  unfold lockedRead
  split
  · next hx =>
      rw [hx] at hacquire
      exact hacquire
  · next hx =>
      rw [hx] at hacquire
      rw [d.release_persisted, d.read_persisted, hacquire]

theorem lockedRead_eq_load (capacity : ℕ) (x : σ) :
    (storageLoad c d capacity x).2 = lockedRead d capacity x := by
  unfold storageLoad lockedRead
  obtain ⟨acquired, x'⟩ := d.acquire x
  cases acquired with
  | error status => rfl
  | ok _ =>
      dsimp only [readLocked]
      obtain ⟨result, y⟩ := d.read capacity x'
      cases result with
      | error status => rfl
      | ok image =>
          dsimp only
          split
          · rfl
          · rfl

/-- What a load returns is what is stored. -/
theorem Holds.loaded {capacity : ℕ} {x : σ} (h : Holds c d x v)
    (hload : (storageLoad c d capacity x).1 = .ok v') : v' = v := by
  obtain ⟨stored, hstored, hdecode⟩ := h
  obtain ⟨image, himage, hdecode'⟩ := storageLoad_decoded hload
  obtain rfl := Option.some.inj (himage.symm.trans hstored)
  exact Except.ok.inj (hdecode'.symm.trans hdecode)

/-- A use keeps the active state that of the stored history, which it may replace by one with
more work. -/
theorem StorageUse.run_coherent {p : ChainState × σ} (hstored : Holds c d p.2 v)
    (hactive : p.1 = v.state) (use : StorageUse) :
    ∃ v', Holds c d (use.run c d p).2 v' ∧ (use.run c d p).1 = v'.state ∧ v.Advances v' := by
  cases use with
  | read capacity =>
      obtain ⟨image, himage, hdecode⟩ := hstored
      exact ⟨v, ⟨image, (persisted_lockedRead capacity p.2).trans himage, hdecode⟩, hactive,
        .inl rfl⟩
  | operation call =>
      obtain ⟨stored, hstored, hdecode⟩ := hstored
      obtain ⟨hfailed, hdone⟩ : (call.run c d p.1 p.2).Atomic c d p.1 p.2
        (call.History c d p.2) := call.run_atomic
      cases hstatus : (call.run c d p.1 p.2).status with
      | error status =>
          obtain ⟨hpersisted, hkept⟩ := hfailed status hstatus
          exact ⟨v, ⟨stored, hpersisted.trans hstored, hdecode⟩, hkept.trans hactive, .inl rfl⟩
      | ok _ =>
          obtain ⟨image, blocks, himage, hdecode', -, -, hwork⟩ := hdone hstatus
          exact ⟨_, ⟨image, himage, hdecode'⟩, rfl, .inr (hwork stored v hstored hdecode)⟩

theorem storageUses_coherent {p : ChainState × σ} (hstored : Holds c d p.2 v)
    (hactive : p.1 = v.state) (uses : List StorageUse) :
    ∃ v', Holds c d (storageUses c d uses p).2 v' ∧ (storageUses c d uses p).1 = v'.state ∧
      v.Advances v' := by
  induction uses generalizing p v with
  | nil => exact ⟨v, hstored, hactive, .inl rfl⟩
  | cons use uses ih =>
      obtain ⟨v₁, hstored₁, hactive₁, hfirst⟩ := use.run_coherent hstored hactive
      obtain ⟨v₂, hstored₂, hactive₂, hrest⟩ := ih hstored₁ hactive₁
      exact ⟨v₂, hstored₂, hactive₂, hfirst.trans hrest⟩

/-! ## Services -/

/-- The active state of a service is that of the stored history. -/
structure MiningService.Coherent (s : MiningService σ) (v : StorageView) : Prop where
  stored : Holds s.chain s.storage s.device v
  active : s.active = v.state

/-- One service has become another, and its provider and its active state have by uses of the
storage. -/
structure MiningService.Refines (s s' : MiningService σ) : Prop where
  chain : s'.chain = s.chain
  storage : s'.storage = s.storage
  uses : ∃ uses, (s'.active, s'.device) = storageUses s.chain s.storage uses (s.active, s.device)

/-- One service has become another without its storage. -/
structure MiningService.Keeps (s s' : MiningService σ) : Prop where
  chain : s'.chain = s.chain
  storage : s'.storage = s.storage
  device : s'.device = s.device
  active : s'.active = s.active

variable {s s' s'' : MiningService σ} {q : RpcMessage} {memory : Bytes} {capacity : ℕ}

theorem MiningService.Keeps.refl (s : MiningService σ) : s.Keeps s :=
  ⟨rfl, rfl, rfl, rfl⟩

theorem MiningService.Keeps.trans (h : s.Keeps s') (h' : s'.Keeps s'') : s.Keeps s'' where
  chain := h'.chain.trans h.chain
  storage := h'.storage.trans h.storage
  device := h'.device.trans h.device
  active := h'.active.trans h.active

theorem MiningService.Keeps.coherent (h : s.Keeps s') (hcoherent : s.Coherent v) :
    s'.Coherent v where
  stored := by
    rw [h.chain, h.storage, h.device]
    exact hcoherent.stored
  active := h.active.trans hcoherent.active

theorem MiningService.Keeps.refines (h : s.Keeps s') : s.Refines s' where
  chain := h.chain
  storage := h.storage
  uses := ⟨[], by rw [h.active, h.device]; rfl⟩

theorem MiningService.Refines.refl (s : MiningService σ) : s.Refines s :=
  (MiningService.Keeps.refl s).refines

theorem MiningService.Refines.trans (h : s.Refines s') (h' : s'.Refines s'') : s.Refines s'' where
  chain := h'.chain.trans h.chain
  storage := h'.storage.trans h.storage
  uses := by
    obtain ⟨uses, huses⟩ := h.uses
    obtain ⟨uses', huses'⟩ := h'.uses
    refine ⟨uses ++ uses', ?_⟩
    rw [huses', h.chain, h.storage, huses, storageUses, storageUses, storageUses,
      List.foldl_append]

theorem MiningService.Refines.kept (h : s.Refines s') (hkept : s'.Keeps s'') : s.Refines s'' :=
  h.trans hkept.refines

/-- A read of the provider. -/
theorem MiningService.Refines.of_read (room : ℕ) {device : σ}
    (h : device = lockedRead s.storage room s.device) : s.Refines { s with device } where
  chain := rfl
  storage := rfl
  uses := ⟨[.read room], by rw [h]; rfl⟩

theorem MiningService.Refines.of_load {room : ℕ} {result : Except StorageStatus StorageView}
    {device : σ} (h : storageLoad s.chain s.storage room s.device = (result, device)) :
    s.Refines { s with device } := by
  apply MiningService.Refines.of_read room
  rw [← lockedRead_eq_load (c := s.chain), h]

/-- Uses of the storage keep a service coherent. -/
theorem MiningService.Coherent.refines (h : s.Coherent v) (hrefines : s.Refines s') :
    ∃ v', s'.Coherent v' ∧ v.Advances v' := by
  obtain ⟨uses, huses⟩ := hrefines.uses
  obtain ⟨hactive, hdevice⟩ := Prod.mk.inj huses
  obtain ⟨v', hstored', hactive', hadvances⟩ :=
    storageUses_coherent (p := (s.active, s.device)) h.stored h.active uses
  refine ⟨v', ⟨?_, hactive.trans hactive'⟩, hadvances⟩
  rw [hrefines.chain, hrefines.storage, hdevice]
  exact hstored'

/-- A load leaves a service coherent. -/
theorem MiningService.Coherent.of_load {room : ℕ} {result : Except StorageStatus StorageView}
    {device : σ} (h : s.Coherent v)
    (hload : storageLoad s.chain s.storage room s.device = (result, device)) :
    MiningService.Coherent { s with device } v := by
  have hpersisted := storageLoad_persisted s.chain s.storage room s.device
  rw [hload] at hpersisted
  obtain ⟨image, himage, hdecode⟩ := h.stored
  exact ⟨⟨image, hpersisted.trans himage, hdecode⟩, h.active⟩

/-- A coherent service loads its own history. -/
theorem MiningService.Coherent.loaded {room : ℕ} {device : σ} (h : s.Coherent v)
    (hload : storageLoad s.chain s.storage room s.device = (.ok v', device)) : v' = v := by
  have hresult : (storageLoad s.chain s.storage room s.device).1 = .ok v' := by rw [hload]
  exact h.stored.loaded hresult

/-! ## Requests that leave the history -/

omit [Primitives] in
theorem RpcMessage.not_changesHistory (method : RpcMethod) (h : q.methodOf = some method)
    (hmethod : method ≠ .submitWork ∧ method ≠ .submitBlockEvidence ∧
      method ≠ .submitHistoryEvidence ∧ method ≠ .submitSuffixEvidence ∧
      method ≠ .suffixStageCommit) : ¬q.ChangesHistory := by
  simp [RpcMessage.ChangesHistory, h, hmethod]

theorem miningAdmit_keeps {bytes : Bytes} : s.Keeps (miningAdmit s v bytes).2.2 := by
  unfold miningAdmit
  split
  · exact .refl s
  · exact ⟨rfl, rfl, rfl, rfl⟩

theorem submitTransaction_keeps : s.Keeps (submitTransaction s v q memory capacity).service := by
  unfold submitTransaction
  split
  · exact .refl s
  split
  · exact .refl s
  · exact miningAdmit_keeps

theorem submitIntelligence_keeps {pool : PendingPool} :
    s.Keeps (submitIntelligence s pool v q memory capacity).service := by
  unfold submitIntelligence
  split
  · exact .refl s
  · exact ⟨rfl, rfl, rfl, rfl⟩

theorem submitShare_keeps : s.Keeps (submitShare s v q memory).service := by
  unfold submitShare
  split
  · exact .refl s
  split
  · exact .refl s
  · exact ⟨rfl, rfl, rfl, rfl⟩

theorem templateTimeSelect_keeps {header : BlockHeader} :
    s.Keeps (templateTimeSelect s v header).2 := by
  have hselect : s.Keeps (selectTimestamp s v).2 := by
    unfold selectTimestamp
    split
    · exact .refl s
    · exact ⟨rfl, rfl, rfl, rfl⟩
  unfold templateTimeSelect
  split
  · exact .refl s
  split
  · next hnone =>
      rw [hnone] at hselect
      exact hselect
  · next hsome =>
      rw [hsome] at hselect
      exact hselect.trans ⟨rfl, rfl, rfl, rfl⟩

theorem templateBuild_keeps : s.Keeps (templateBuild s v).2 := by
  unfold templateBuild
  split
  · exact .refl s
  split
  · exact .refl s
  next header _ =>
  have htime : s.Keeps (templateTimeSelect s v header).2 := templateTimeSelect_keeps
  split
  · next htime' =>
      rw [htime'] at htime
      exact htime
  · next htime' =>
      rw [htime'] at htime
      exact htime

theorem miningTemplate_keeps : s.Keeps (miningTemplate s v memory capacity).service := by
  have hbuild : s.Keeps (templateBuild s v).2 := templateBuild_keeps
  unfold miningTemplate
  split
  · next hbuilt =>
      rw [hbuilt] at hbuild
      exact hbuild
  · next hbuilt =>
      rw [hbuilt] at hbuild
      exact hbuild

theorem miningContext_keeps : s.Keeps (miningContext s v q memory capacity).service := by
  unfold miningContext
  dsimp only
  split
  · exact templateBuild_keeps
  · exact .refl s

theorem workRequest_keeps (hmethod : ¬q.ChangesHistory) :
    s.Keeps (workRequest s v q memory capacity).service := by
  unfold workRequest
  split
  · exact submitShare_keeps
  · next hwork => exact absurd (.inl hwork) hmethod
  · exact miningTemplate_keeps
  · exact miningContext_keeps
  · exact miningContext_keeps
  · exact .refl s

theorem housekeeping_keeps (h : housekeeping s v q = .ok s') : s.Keeps s' := by
  unfold housekeeping at h
  split at h
  iterate 4
    · rw [← Except.ok.inj h]
      exact .refl s
  split at h
  · cases h
  · rw [← Except.ok.inj h]
    exact ⟨rfl, rfl, rfl, rfl⟩

theorem pooledRequest_keeps (hmethod : ¬q.ChangesHistory) :
    s.Keeps (pooledRequest s v q memory capacity).service := by
  unfold pooledRequest
  split
  · exact .refl s
  next s' hs' =>
  apply (housekeeping_keeps hs').trans
  split
  · exact submitIntelligence_keeps
  · exact .refl s'
  · exact workRequest_keeps hmethod

/-- The branches of the other requests. -/
theorem miningRequest_keeps (hmethod : ¬q.ChangesHistory) :
    s.Keeps (miningRequest s v q memory capacity).service := by
  unfold miningRequest
  split
  iterate 6
    · exact .refl s
  iterate 3
    · exact ⟨rfl, rfl, rfl, rfl⟩
  · next hcommit => exact absurd (.inr (.inr (.inr (.inr hcommit)))) hmethod
  · next hsuffix => exact absurd (.inr (.inr (.inr (.inl hsuffix)))) hmethod
  · next hhistory => exact absurd (.inr (.inr (.inl hhistory))) hmethod
  · next hblock => exact absurd (.inr (.inl hblock)) hmethod
  · exact submitTransaction_keeps
  · exact pooledRequest_keeps hmethod

/-! ## Changes of the history -/

/-- An operation on the active state that fails leaves what it makes of the provider. -/
theorem MiningService.Refines.of_failed (call : StorageCall) {status : StorageStatus}
    (h : (call.run s.chain s.storage s.active s.device).status = .error status) :
    s.Refines { s with device := (call.run s.chain s.storage s.active s.device).device } := by
  have hatomic : (call.run s.chain s.storage s.active s.device).Atomic s.chain s.storage
    s.active s.device (call.History s.chain s.storage s.device) := call.run_atomic
  refine ⟨rfl, rfl, [.operation call], ?_⟩
  exact Prod.ext (hatomic.failed status h).2.symm rfl

/-- One that succeeds makes its state active as well. -/
theorem MiningService.Refines.of_done (call : StorageCall) {pending : Option PendingPool} :
    s.Refines { s with
      device := (call.run s.chain s.storage s.active s.device).device
      active := (call.run s.chain s.storage s.active s.device).active
      pending } :=
  ⟨rfl, rfl, [.operation call], rfl⟩

theorem afterStorage_refines (call : StorageCall) (mask : List Bool) :
    s.Refines (afterStorage s (call.run s.chain s.storage s.active s.device) mask).2 := by
  unfold afterStorage
  cases hstatus : (call.run s.chain s.storage s.active s.device).status with
  | ok _ => exact .of_done call
  | error status =>
      split
      · next hok => exact absurd hok (storageCode_error_ne_ok status)
      · exact .of_failed call hstatus

theorem publishHistory_refines {held given : List Bytes} {plan : ReorgPlan} :
    s.Refines (publishHistory s s.active held given plan).2 := by
  unfold publishHistory
  split
  · exact .refl s
  next workspace _ =>
  have hbuffers : s.Keeps { s with workspace } := ⟨rfl, rfl, rfl, rfl⟩
  dsimp only
  split
  · exact hbuffers.refines
  · next mask _ =>
      apply hbuffers.refines.trans
      exact afterStorage_refines
        (.apply (s.heldBlocks workspace held 1 ++ given) plan workspace) mask

theorem publishPreferred_refines {held given : List Bytes}
    {fork : ForkReport × Option ReorgPlan} {notPreferred : RpcCode} :
    s.Refines (publishPreferred s s.active held given fork notPreferred).2 := by
  unfold publishPreferred
  split
  · exact .refl s
  · exact .refl s
  · exact .refl s
  · exact publishHistory_refines
  · exact .refl s

theorem extendHistory_refines (h : s.Coherent v) {bytes : Bytes} :
    s.Refines (extendHistory s v bytes).2 := by
  unfold extendHistory
  split
  · exact .refl s
  next mask _ =>
  split
  · exact .refl s
  next workspace _ =>
  have hbuffers : s.Keeps { s with workspace } := ⟨rfl, rfl, rfl, rfl⟩
  apply hbuffers.refines.trans
  rw [← h.active]
  exact afterStorage_refines (.extend bytes workspace) mask

theorem historyOutcome_refines {r : RpcCode × MiningService σ} (h : s.Refines r.2) :
    s.Refines (historyOutcome r memory capacity).service := by
  rw [historyOutcome_service]
  exact h

theorem submitSuffixEvidence_refines (h : s.Coherent v) :
    s.Refines (submitSuffixEvidence s q memory capacity).service := by
  unfold submitSuffixEvidence
  dsimp only
  split
  · exact .refl s
  split
  · next hload => exact .of_load hload
  next accepted device hload =>
  have hloaded : s.Refines { s with device } := .of_load hload
  split
  · exact hloaded
  split
  · exact hloaded
  · apply historyOutcome_refines
    apply hloaded.trans
    obtain rfl := h.loaded hload
    rw [← h.active]
    exact publishPreferred_refines (s := { s with device })

theorem submitHistoryEvidence_refines (h : s.Coherent v) :
    s.Refines (submitHistoryEvidence s v q memory capacity).service := by
  unfold submitHistoryEvidence
  dsimp only
  split
  · exact .refl s
  split
  · exact .refl s
  · apply historyOutcome_refines
    rw [← h.active]
    exact publishPreferred_refines

theorem stageCommit_refines (h : s.Coherent v) :
    s.Refines (stageCommit s v memory capacity).service := by
  unfold stageCommit
  split
  · exact .refl s
  · have hcommit : s.Refines (historyOutcome (commitSuffix s v) memory capacity).service := by
      apply historyOutcome_refines
      unfold commitSuffix
      dsimp only
      split
      · exact .refl s
      · rw [← h.active]
        exact publishPreferred_refines
    exact hcommit.kept ⟨rfl, rfl, rfl, rfl⟩

theorem submitBlockEvidence_refines (h : s.Coherent v) :
    s.Refines (submitBlockEvidence s v q memory capacity).service := by
  unfold submitBlockEvidence
  split
  · exact .refl s
  · exact historyOutcome_refines (extendHistory_refines h)

theorem admitReward_refines {miner : Address} : s.Refines (admitReward s miner).2 := by
  unfold admitReward
  split
  · exact .refl s
  split
  · exact .refl s
  split
  · next hload => exact .of_load hload
  · next v device hload =>
      have hloaded : s.Refines { s with device } := .of_load hload
      exact hloaded.kept ⟨rfl, rfl, rfl, rfl⟩

theorem extendByWork_refines (h : s.Coherent v) {submitted : Bytes} {miner : Address} :
    s.Refines (extendByWork s v submitted miner).2 := by
  have hextend : s.Refines (extendHistory s v submitted).2 := extendHistory_refines h
  unfold extendByWork
  split
  · next s' hs' =>
      rw [hs'] at hextend
      exact hextend.trans admitReward_refines
  · exact hextend

theorem submitWork_refines (h : s.Coherent v) :
    s.Refines (submitWork s v q memory capacity).service := by
  unfold submitWork
  split
  · exact .refl s
  split
  · exact .refl s
  split
  · exact .refl s
  · exact historyOutcome_refines (extendByWork_refines h)

/-- Every branch. -/
theorem miningRequest_refines (h : s.Coherent v) :
    s.Refines (miningRequest s v q memory capacity).service := by
  by_cases hchanges : q.ChangesHistory
  · rcases hchanges with hmethod | hmethod | hmethod | hmethod | hmethod
    · have hpooled : pooledRequest s v q memory capacity = submitWork s v q memory capacity := by
        simp only [pooledRequest, housekeeping, hmethod, workRequest]
        cases s.pending <;> rfl
      simp only [miningRequest, hmethod, hpooled]
      exact submitWork_refines h
    · simp only [miningRequest, hmethod]
      exact submitBlockEvidence_refines h
    · simp only [miningRequest, hmethod]
      exact submitHistoryEvidence_refines h
    · simp only [miningRequest, hmethod]
      exact submitSuffixEvidence_refines h
    · simp only [miningRequest, hmethod]
      exact stageCommit_refines h
  · exact (miningRequest_keeps hchanges).refines

/-! ## Requests -/

theorem prepareSnapshot_refines {result : Except RpcCode Unit}
    (h : prepareSnapshot s = (result, s')) : s.Refines s' := by
  have hread : ∀ device, s.storage.acquire s.device = (.ok (), device) →
      s.storage.release (s.storage.read 0 device).2 = lockedRead s.storage 0 s.device := by
    intro device hx
    simp only [lockedRead, hx]
  unfold prepareSnapshot at h
  dsimp only at h
  split at h
  · obtain rfl := (Prod.mk.inj h).2
    exact .refl s
  split at h
  · next hx =>
      obtain rfl := (Prod.mk.inj h).2
      apply MiningService.Refines.of_read 0
      simp only [lockedRead, hx]
  next device hx =>
  have hprobe := MiningService.Refines.of_read (s := s) 0 (hread device hx)
  split at h
  · split at h
    · obtain rfl := (Prod.mk.inj h).2
      exact hprobe
    · obtain rfl := (Prod.mk.inj h).2
      exact hprobe.kept ⟨rfl, rfl, rfl, rfl⟩
  · split at h
    · obtain rfl := (Prod.mk.inj h).2
      exact hprobe
    · obtain rfl := (Prod.mk.inj h).2
      exact hprobe.kept ⟨rfl, rfl, rfl, rfl⟩
  · obtain rfl := (Prod.mk.inj h).2
    exact hprobe

/-- A service with the same data is coherent too. -/
theorem MiningService.Coherent.of_same (h : s.Coherent v) (hchain : s'.chain = s.chain)
    (hsame : s.Same s') : s'.Coherent v := by
  obtain ⟨image, himage, hdecode⟩ := h.stored
  refine ⟨⟨image, ?_, ?_⟩, hsame.active.trans h.active⟩
  · rw [hsame.storage]
    exact hsame.durable.trans himage
  · rw [hchain]
    exact hdecode

/-- The growth of the snapshot buffer leaves a service coherent. -/
theorem MiningService.Coherent.prepared {result : Except RpcCode Unit} (h : s.Coherent v)
    (hprepared : prepareSnapshot s = (result, s')) : s'.Coherent v :=
  h.of_same (prepareSnapshot_refines hprepared).chain (prepareSnapshot_same hprepared)

theorem MiningService.Coherent.loadedRequest (h : s.Coherent v) :
    s.Refines (loadedRequest s q memory capacity).service := by
  unfold StnChain.loadedRequest
  split
  · next hprepared => exact prepareSnapshot_refines hprepared
  next prepared hprepared =>
  have hgrown := prepareSnapshot_refines hprepared
  have hcoherent := h.prepared hprepared
  split
  · next hload => exact hgrown.trans (.of_load hload)
  · next loaded device hload =>
      obtain rfl := hcoherent.loaded hload
      exact hgrown.trans ((MiningService.Refines.of_load hload).trans
        (miningRequest_refines (hcoherent.of_load hload)))

/-- A request refines uses of the storage. -/
theorem MiningService.Coherent.handle (h : s.Coherent v) :
    s.Refines (miningHandle s q memory capacity).service := by
  unfold miningHandle
  split
  · exact .refl s
  split
  · split
    · exact .refl s
    · exact .refl s
  · split
    · exact .refl s
    · exact .refl s
  · exact h.loadedRequest

/-- A request of another kind leaves the history. -/
theorem MiningService.Coherent.unchanged (h : s.Coherent v) (hmethod : ¬q.ChangesHistory) :
    (miningHandle s q memory capacity).service.Coherent v := by
  unfold miningHandle
  split
  · exact h
  split
  · split
    · exact h
    · exact h
  · split
    · exact h
    · exact h
  unfold StnChain.loadedRequest
  split
  · next hprepared => exact h.prepared hprepared
  next prepared hprepared =>
  have hcoherent := h.prepared hprepared
  split
  · next hload => exact hcoherent.of_load hload
  · next hload => exact (miningRequest_keeps hmethod).coherent (hcoherent.of_load hload)

/-- So does a request of a session. -/
theorem MiningService.Coherent.sessionHandle (h : s.Coherent v) {stage : SuffixStage} :
    s.Refines (miningSessionHandle s stage q memory capacity).2.2 := by
  unfold miningSessionHandle
  split
  · exact .refl s
  · have hlent : s.Keeps { s with stage } := ⟨rfl, rfl, rfl, rfl⟩
    have hhandled : MiningService.Refines { s with stage }
        (miningHandle { s with stage } q memory capacity).service := (hlent.coherent h).handle
    exact (hlent.refines.trans hhandled).kept ⟨rfl, rfl, rfl, rfl⟩

end

end StnChain
