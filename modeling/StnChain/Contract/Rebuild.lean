import StnChain.Contract.Accepted
import StnChain.Support.InPlace
import StnChain.Support.TwinReplay

/-!
# Rebuilding into the caller's approval buffer

The two rebuilds of accepted approvals, `stn_contract_approval_state_rebuild` from keys and
`stn_contract_rebuild_accepted_state` from actions, over the buffer the caller owns.  Both
write from its first slot on and take back only the count when an entry is refused, so a
refused rebuild is undone exactly when the keys it had written are the keys it wrote over.
-/

namespace StnChain

/-! ## The caller's buffer -/

/-- `stn_contract_approval_state` with its slots: the first `acceptedCount` of them hold the
accepted keys. -/
structure ApprovalBuffer where
  slots : List ApprovalKey
  acceptedCount : ℕ
  deriving DecidableEq

namespace ApprovalBuffer

/-- `accepted_capacity`. -/
def acceptedCapacity (state : ApprovalBuffer) : ℕ := state.slots.length

/-- `stn_contract_approval_state_check` over the slots. -/
def check (state : ApprovalBuffer) (key : ApprovalKey) : Except ContractStatus Unit :=
  if state.acceptedCount > state.acceptedCapacity then .error .argument
  else if key ∈ state.slots.take state.acceptedCount then .error .duplicateApproval
  else .ok ()

/-- `stn_contract_approval_state_consume` over the slots. -/
def consume (state : ApprovalBuffer) (key : ApprovalKey) : Except ContractStatus ApprovalBuffer :=
  match state.check key with
  | .error status => .error status
  | .ok () =>
      if state.acceptedCount = state.acceptedCapacity then .error .capacity
      else .ok ⟨state.slots.set state.acceptedCount key, state.acceptedCount + 1⟩

variable [Primitives]

/-- `stn_contract_accept_action` over the slots; an error writes none of them. -/
def acceptAction (current : Contract) (action : ContractAction) (expectedSequence : UInt64)
    (canonicalContract : Bytes) (actor : Octets 32) (approvals : ApprovalBuffer) :
    Except ContractStatus (ApprovalBuffer × Contract) :=
  match contractMatchesCanonical current canonicalContract with
  | .error status => .error status
  | .ok () =>
      match contractApplyAction current action expectedSequence with
      | .error status => .error status
      | .ok updated =>
          if action ≠ .approve then .ok (approvals, updated)
          else
            match contractApprovalKey canonicalContract expectedSequence actor with
            | .error status => .error status
            | .ok key =>
                match approvals.check key with
                | .error status => .error status
                | .ok () =>
                    if approvals.acceptedCount = approvals.acceptedCapacity then
                      .error .capacity
                    else
                      match approvals.consume key with
                      | .error status => .error status
                      | .ok approvals => .ok (approvals, updated)

/-- One round of the rebuild over the slots. -/
def rebuildStep (working : ApprovalBuffer × Contract) (entry : ContractAcceptedAction) :
    Except ContractStatus (ApprovalBuffer × Contract) :=
  acceptAction working.2 entry.action entry.sequence entry.canonicalContract entry.actor working.1

end ApprovalBuffer

/-! ## The two rebuilds -/

/-- `stn_contract_approval_state_rebuild`: the caller's state afterwards, and the outcome. -/
def contractApprovalStateRebuild (state : ApprovalBuffer) (keys : List ApprovalKey) :
    ApprovalBuffer × Except ContractStatus Unit :=
  if state.acceptedCount > state.acceptedCapacity then (state, .error .argument)
  else if keys.length > state.acceptedCapacity then (state, .error .capacity)
  else
    match InPlace.run ApprovalBuffer.consume keys { state with acceptedCount := 0 } with
    | (reached, .error status) =>
        ({ reached with acceptedCount := state.acceptedCount }, .error status)
    | (reached, .ok ()) => (reached, .ok ())

/-- `stn_contract_rebuild_accepted_state` on the caller's approvals and current contract. -/
def contractRebuildInto [Primitives] (initial : Contract) (history : List ContractAcceptedAction)
    (state : ApprovalBuffer) (current : Contract) :
    (ApprovalBuffer × Contract) × Except ContractStatus Unit :=
  if state.acceptedCount > state.acceptedCapacity then ((state, current), .error .argument)
  else
    match InPlace.run ApprovalBuffer.rebuildStep history
        ({ state with acceptedCount := 0 }, initial) with
    | (reached, .error status) =>
        (({ reached.1 with acceptedCount := state.acceptedCount }, current), .error status)
    | (reached, .ok ()) => (reached, .ok ())

/-- The count and the keys below it are as they were. -/
structure ApprovalBuffer.Kept (before after : ApprovalBuffer) : Prop where
  count : after.acceptedCount = before.acceptedCount
  keys : after.slots.take before.acceptedCount = before.slots.take before.acceptedCount

/-- The approval keys some actions take, in their order. -/
def approvalKeys [Primitives] (history : List ContractAcceptedAction) : List ApprovalKey :=
  history.filterMap fun entry =>
    if entry.action = .approve then
      (contractApprovalKey entry.canonicalContract entry.sequence entry.actor).toOption
    else none

/-! ## The buffer follows the list of accepted keys -/

/-- The caller's slots after some keys were written from the first one on. -/
def ApprovalBuffer.holding (slots : List ApprovalKey) (state : ContractApprovalState) :
    ApprovalBuffer :=
  ⟨Buffer.overwrite slots 0 state.accepted, state.accepted.length⟩

/-- The keys written so far fit the slots. -/
structure ApprovalBuffer.Fits (slots : List ApprovalKey) (state : ContractApprovalState) :
    Prop where
  capacity : state.acceptedCapacity = slots.length
  room : state.accepted.length ≤ slots.length

section Follows

variable {slots : List ApprovalKey} {state state' : ContractApprovalState} {key : ApprovalKey}

open ApprovalBuffer

theorem ApprovalBuffer.holding_capacity (h : Fits slots state) :
    (holding slots state).acceptedCapacity = slots.length :=
  Buffer.length_overwrite (by rw [Nat.zero_add]; exact h.room)

theorem ApprovalBuffer.check_holding (h : Fits slots state) (key : ApprovalKey) :
    (holding slots state).check key = contractApprovalStateCheck state key := by
  have hroom := h.room
  have hcapacity := h.capacity
  rw [check, contractApprovalStateCheck, holding_capacity h, hcapacity]
  simp only [holding, Buffer.take_overwrite_zero]

theorem ApprovalBuffer.consume_holding (h : Fits slots state) (key : ApprovalKey) :
    (holding slots state).consume key =
      (contractApprovalStateConsume state key).map (holding slots) := by
  rw [consume, contractApprovalStateConsume, check_holding h, holding_capacity h, h.capacity]
  cases contractApprovalStateCheck state key with
  | error status => rfl
  | ok _ =>
      by_cases hfull : state.accepted.length = slots.length
      · have hcount : (holding slots state).acceptedCount = slots.length := hfull
        simp only [if_pos hfull, if_pos hcount, Except.map]
      · have hcount : (holding slots state).acceptedCount ≠ slots.length := hfull
        have hspare : state.accepted.length < slots.length := by
          have := h.room
          omega
        have hset := InPlace.set_overwrite_zero hspare key
        simp only [if_neg hfull, if_neg hcount, Except.map]
        simp only [holding, hset, List.length_append, List.length_singleton]

/-- A key is taken behind the others, as long as there is room. -/
theorem contractApprovalStateConsume_eq_ok_iff
    (hroom : state.accepted.length ≤ state.acceptedCapacity) :
    contractApprovalStateConsume state key = .ok state' ↔
      key ∉ state.accepted ∧ state.accepted.length < state.acceptedCapacity ∧
        state' = { state with accepted := state.accepted ++ [key] } := by
  rw [contractApprovalStateConsume, contractApprovalStateCheck, if_neg (not_lt.mpr hroom)]
  by_cases hmem : key ∈ state.accepted
  · rw [if_pos hmem]
    simp [hmem]
  · rw [if_neg hmem]
    by_cases hfull : state.accepted.length = state.acceptedCapacity
    · simp [hfull]
    · have hspare : state.accepted.length < state.acceptedCapacity := by omega
      simp [hmem, hfull, hspare, eq_comm]

theorem ApprovalBuffer.Fits.consume (h : Fits slots state)
    (hstep : contractApprovalStateConsume state key = .ok state') : Fits slots state' := by
  have hroom : state.accepted.length ≤ state.acceptedCapacity := h.capacity ▸ h.room
  obtain ⟨-, hspare, rfl⟩ := (contractApprovalStateConsume_eq_ok_iff hroom).mp hstep
  refine ⟨h.capacity, ?_⟩
  rw [List.length_append, List.length_singleton, ← h.capacity]
  exact hspare

/-- Keys taken one by one are distinct, and fit. -/
theorem foldlM_consume_eq_ok_iff {keys : List ApprovalKey}
    (hroom : state.accepted.length ≤ state.acceptedCapacity) (hnodup : state.accepted.Nodup) :
    keys.foldlM contractApprovalStateConsume state = .ok state' ↔
      (state.accepted ++ keys).Nodup ∧
        (state.accepted ++ keys).length ≤ state.acceptedCapacity ∧
        state' = { state with accepted := state.accepted ++ keys } := by
  induction keys generalizing state with
  | nil =>
      rw [List.append_nil]
      constructor
      · intro h
        obtain rfl := Except.ok.inj h
        exact ⟨hnodup, hroom, rfl⟩
      · rintro ⟨-, -, rfl⟩
        rfl
  | cons key keys ih =>
      rw [List.foldlM_cons, bind_eq_ok_iff]
      constructor
      · rintro ⟨state₁, hstep, hrest⟩
        obtain ⟨hfresh, hspare, rfl⟩ := (contractApprovalStateConsume_eq_ok_iff hroom).mp hstep
        have hnodup₁ : (state.accepted ++ [key]).Nodup := by
          rw [List.nodup_append]
          simp only [List.nodup_singleton, List.mem_singleton, true_and]
          exact ⟨hnodup, fun a ha b hb hab => hfresh (hb ▸ hab ▸ ha)⟩
        have hroom₁ : (state.accepted ++ [key]).length ≤ state.acceptedCapacity := by
          rw [List.length_append, List.length_singleton]
          exact hspare
        have := (ih hroom₁ hnodup₁).mp hrest
        simpa using this
      · rintro ⟨hall, hlength, heq⟩
        have happend : state.accepted ++ key :: keys = state.accepted ++ [key] ++ keys := by simp
        rw [happend] at hall hlength heq
        have hnodup₁ : (state.accepted ++ [key]).Nodup := hall.of_append_left
        have hroom₁ : (state.accepted ++ [key]).length ≤ state.acceptedCapacity := by
          rw [List.length_append] at hlength
          omega
        refine ⟨{ state with accepted := state.accepted ++ [key] }, ?_, ?_⟩
        · refine (contractApprovalStateConsume_eq_ok_iff hroom).mpr ⟨?_, ?_, rfl⟩
          · intro hmem
            rw [List.nodup_append] at hnodup₁
            exact hnodup₁.2.2 key hmem key (List.mem_singleton_self key) rfl
          · rw [List.length_append, List.length_singleton] at hroom₁
            exact hroom₁
        · exact (ih (by exact hroom₁) (by exact hnodup₁)).mpr ⟨hall, hlength, heq⟩

variable [Primitives] {initial : Contract} {history : List ContractAcceptedAction}

/-- A round over the slots is a round of the rebuild over the keys they hold. -/
theorem ApprovalBuffer.rebuildStep_holding {working : ContractApprovalState × Contract}
    (h : Fits slots working.1) (entry : ContractAcceptedAction) :
    rebuildStep (holding slots working.1, working.2) entry =
      (contractRebuildStep working entry).map fun w => (holding slots w.1, w.2) := by
  simp only [rebuildStep, acceptAction, contractRebuildStep, contractAcceptAction,
    check_holding h, holding_capacity h, consume_holding h, h.capacity]
  cases contractMatchesCanonical working.2 entry.canonicalContract with
  | error status => rfl
  | ok _ =>
  cases contractApplyAction working.2 entry.action entry.sequence with
  | error status => rfl
  | ok updated =>
  by_cases haction : entry.action = .approve
  · simp only [if_neg (not_not.mpr haction)]
    cases contractApprovalKey entry.canonicalContract entry.sequence entry.actor with
    | error status => rfl
    | ok key =>
    simp only
    cases contractApprovalStateCheck working.1 key with
    | error status => rfl
    | ok _ =>
    by_cases hfull : working.1.accepted.length = slots.length
    · have hcount : (holding slots working.1).acceptedCount = slots.length := hfull
      simp only [if_pos hfull, if_pos hcount, Except.map]
    · have hcount : (holding slots working.1).acceptedCount ≠ slots.length := hfull
      simp only [if_neg hfull, if_neg hcount]
      cases contractApprovalStateConsume working.1 key with
      | error status => rfl
      | ok state => rfl
  · simp only [if_pos haction, Except.map]

/-- A round takes the approval key of its action, if it has one. -/
theorem contractRebuildStep_accepted {working working' : ContractApprovalState × Contract}
    {entry : ContractAcceptedAction}
    (hstep : contractRebuildStep working entry = .ok working') :
    working'.1 = { working.1 with
      accepted := working.1.accepted ++ approvalKeys [entry] } ∧
      (working.1.accepted.length ≤ working.1.acceptedCapacity →
        working'.1.accepted.length ≤ working.1.acceptedCapacity) := by
  simp only [contractRebuildStep, contractAcceptAction] at hstep
  split at hstep
  · cases hstep
  split at hstep
  · cases hstep
  by_cases haction : entry.action = .approve
  · rw [if_neg (not_not.mpr haction)] at hstep
    split at hstep
    · cases hstep
    next key hkey =>
    split at hstep
    · cases hstep
    split at hstep
    · cases hstep
    split at hstep
    · cases hstep
    next state hconsume =>
    obtain rfl := Except.ok.inj hstep
    have hkeys : approvalKeys [entry] = [key] := by
      simp [approvalKeys, haction, hkey, Except.toOption]
    have htaken := hconsume
    simp only [contractApprovalStateConsume] at htaken
    split at htaken
    · cases htaken
    split at htaken
    · cases htaken
    next hfull =>
    obtain rfl := Except.ok.inj htaken
    rw [hkeys]
    refine ⟨rfl, fun hroom => ?_⟩
    simp only [List.length_append, List.length_singleton]
    omega
  · rw [if_pos haction] at hstep
    obtain rfl := Except.ok.inj hstep
    have hkeys : approvalKeys [entry] = [] := by simp [approvalKeys, haction]
    rw [hkeys, List.append_nil]
    exact ⟨rfl, id⟩

theorem ApprovalBuffer.Fits.rebuildStep {working working' : ContractApprovalState × Contract}
    {entry : ContractAcceptedAction} (h : Fits slots working.1)
    (hstep : contractRebuildStep working entry = .ok working') : Fits slots working'.1 := by
  obtain ⟨htaken, hroom⟩ := contractRebuildStep_accepted hstep
  have hlength := hroom (h.capacity ▸ h.room)
  rw [h.capacity] at hlength
  exact ⟨by rw [htaken]; exact h.capacity, hlength⟩

/-- Accepted actions leave their approval keys behind. -/
theorem foldlM_rebuildStep_accepted {working working' : ContractApprovalState × Contract}
    (h : history.foldlM contractRebuildStep working = .ok working') :
    working'.1.accepted = working.1.accepted ++ approvalKeys history := by
  induction history generalizing working with
  | nil =>
      obtain rfl := Except.ok.inj h
      simp [approvalKeys]
  | cons entry history ih =>
      rw [List.foldlM_cons, bind_eq_ok_iff] at h
      obtain ⟨working₁, hstep, hrest⟩ := h
      have happend : approvalKeys (entry :: history) =
          approvalKeys [entry] ++ approvalKeys history := by
        simp only [approvalKeys, ← List.filterMap_append, List.singleton_append]
      rw [ih hrest, (contractRebuildStep_accepted hstep).1, happend, List.append_assoc]

end Follows

/-! ## When a refused rebuild is undone -/

section Undone

open ApprovalBuffer

theorem ApprovalBuffer.Kept.refl (state : ApprovalBuffer) : state.Kept state :=
  ⟨rfl, rfl⟩

variable {state : ApprovalBuffer}

/-- The rebuilds start from the slots as they are, with none of them taken. -/
theorem ApprovalBuffer.holding_initialize (slots : List ApprovalKey) (capacity : ℕ) :
    holding slots (contractApprovalStateInitialize capacity) = ⟨slots, 0⟩ := by
  simp [holding, contractApprovalStateInitialize, InPlace.overwrite_zero]

theorem ApprovalBuffer.fits_initialize (slots : List ApprovalKey) :
    Fits slots (contractApprovalStateInitialize slots.length) :=
  ⟨rfl, Nat.zero_le _⟩

/-- With its count taken back, a buffer is as it was when the keys written over it are the
keys it held. -/
theorem ApprovalBuffer.kept_iff {taken : ContractApprovalState} (h : Fits state.slots taken) :
    state.Kept { holding state.slots taken with acceptedCount := state.acceptedCount } ↔
      taken.accepted.take state.acceptedCount <+: state.slots := by
  rw [← InPlace.take_overwrite_zero_eq_iff _ h.room]
  constructor
  · intro hkept
    exact hkept.keys
  · intro hkeys
    exact ⟨rfl, hkeys⟩

theorem run_consume (slots keys : List ApprovalKey) :
    InPlace.run ApprovalBuffer.consume keys ⟨slots, 0⟩ =
      (holding slots (InPlace.run contractApprovalStateConsume keys
          (contractApprovalStateInitialize slots.length)).1,
        (InPlace.run contractApprovalStateConsume keys
          (contractApprovalStateInitialize slots.length)).2) := by
  rw [← holding_initialize slots slots.length]
  apply InPlace.run_map (I := Fits slots)
  · intro taken key h
    exact consume_holding h key
  · intro taken key taken' h hstep
    exact h.consume hstep
  · exact fits_initialize slots

/-- The keys taken one by one from the start are the keys themselves. -/
theorem foldlM_consume_initialize_eq_ok_iff {keys : List ApprovalKey} {capacity : ℕ}
    {taken : ContractApprovalState} :
    keys.foldlM contractApprovalStateConsume (contractApprovalStateInitialize capacity) =
        .ok taken ↔
      keys.Nodup ∧ keys.length ≤ capacity ∧ taken = ⟨keys, capacity⟩ :=
  foldlM_consume_eq_ok_iff (Nat.zero_le _) List.nodup_nil

/-- A rebuild from keys is undone, when it is refused, exactly when the keys in front of the
first repeated one are the keys that were accepted in their place. -/
theorem contractApprovalStateRebuild_kept_iff (state : ApprovalBuffer)
    (keys : List ApprovalKey) :
    (∀ reached status, contractApprovalStateRebuild state keys = (reached, .error status) →
        state.Kept reached) ↔
      (state.acceptedCount ≤ state.acceptedCapacity → keys.length ≤ state.acceptedCapacity →
        ∀ past key, past ++ [key] <+: keys → past.Nodup → key ∈ past →
          past.take state.acceptedCount <+: state.slots) := by
  constructor
  · intro hkept hcount hlength past key hprefix hnodup hmem
    have hpast : past.length + 1 ≤ state.slots.length := by
      have := hprefix.length_le
      rw [List.length_append, List.length_singleton] at this
      exact this.trans hlength
    have hfold := foldlM_consume_initialize_eq_ok_iff.mpr
      ⟨hnodup, Nat.le_of_succ_le hpast, rfl⟩
    have hrefused : contractApprovalStateConsume ⟨past, state.slots.length⟩ key =
        .error .duplicateApproval := by
      have hroom : ¬ past.length > state.slots.length := by omega
      simp [contractApprovalStateConsume, contractApprovalStateCheck, hroom, hmem]
    have hrun := InPlace.run_of_refused hprefix hfold hrefused
    have hresult : contractApprovalStateRebuild state keys =
        ({ holding state.slots ⟨past, state.slots.length⟩ with
          acceptedCount := state.acceptedCount }, .error .duplicateApproval) := by
      rw [contractApprovalStateRebuild, if_neg (not_lt.mpr hcount), if_neg (not_lt.mpr hlength),
        run_consume, hrun]
    have hfits : Fits state.slots ⟨past, state.slots.length⟩ := ⟨rfl, Nat.le_of_succ_le hpast⟩
    exact (kept_iff hfits).mp (hkept _ _ hresult)
  · intro hheld reached status hresult
    rw [contractApprovalStateRebuild] at hresult
    split at hresult
    · obtain ⟨rfl, -⟩ := Prod.mk.inj hresult
      exact Kept.refl _
    next hcount =>
    split at hresult
    · obtain ⟨rfl, -⟩ := Prod.mk.inj hresult
      exact Kept.refl _
    next hlength =>
    rw [not_lt] at hcount hlength
    rw [run_consume] at hresult
    cases hrun : InPlace.run contractApprovalStateConsume keys
        (contractApprovalStateInitialize state.slots.length) with
    | mk taken outcome =>
    rw [hrun] at hresult
    cases outcome with
    | ok _ => cases (Prod.mk.inj hresult).2
    | error status' =>
        obtain ⟨rfl, -⟩ := Prod.mk.inj hresult
        obtain ⟨past, key, hprefix, hfold, hrefused⟩ := InPlace.run_eq_error hrun
        obtain ⟨hnodup, hroom, rfl⟩ := foldlM_consume_initialize_eq_ok_iff.mp hfold
        apply (kept_iff ⟨rfl, hroom⟩).mpr
        apply hheld hcount hlength past key hprefix hnodup
        -- There is room for the key, so it is refused for having been taken.
        by_contra hfresh
        have hspare : past.length + 1 ≤ state.slots.length := by
          have := hprefix.length_le
          rw [List.length_append, List.length_singleton] at this
          exact this.trans hlength
        have htaken : ∃ taken,
            contractApprovalStateConsume ⟨past, state.slots.length⟩ key = .ok taken :=
          ⟨_, (contractApprovalStateConsume_eq_ok_iff (by exact hroom)).mpr
            ⟨hfresh, hspare, rfl⟩⟩
        obtain ⟨taken, htaken⟩ := htaken
        rw [htaken] at hrefused
        cases hrefused

variable [Primitives]

theorem run_rebuildStep (slots : List ApprovalKey) (initial : Contract)
    (history : List ContractAcceptedAction) :
    InPlace.run ApprovalBuffer.rebuildStep history (⟨slots, 0⟩, initial) =
      let run := InPlace.run contractRebuildStep history
        (contractApprovalStateInitialize slots.length, initial)
      ((holding slots run.1.1, run.1.2), run.2) := by
  rw [← holding_initialize slots slots.length]
  apply InPlace.run_map (s := (contractApprovalStateInitialize slots.length, initial))
    (φ := fun w => (holding slots w.1, w.2)) (I := fun w => Fits slots w.1)
  · intro working entry h
    exact rebuildStep_holding h entry
  · intro working entry working' h hstep
    exact h.rebuildStep hstep
  · exact fits_initialize slots

/-- What the rounds of a rebuild from actions have taken fits the slots. -/
theorem foldlM_rebuildStep_fits {slots : List ApprovalKey} {initial : Contract}
    {history : List ContractAcceptedAction} {working : ContractApprovalState × Contract}
    (h : history.foldlM contractRebuildStep
      (contractApprovalStateInitialize slots.length, initial) = .ok working) :
    Fits slots working.1 ∧ working.1.accepted = approvalKeys history := by
  refine ⟨?_, foldlM_rebuildStep_accepted h⟩
  have hinit : Fits slots (contractApprovalStateInitialize slots.length, initial).1 :=
    fits_initialize slots
  exact TwinReplay.foldlM_invariant (I := fun w => Fits slots w.1)
    (fun w entry w' hw hstep => hw.rebuildStep hstep) hinit h

/-- A rebuild from actions is undone, when it is refused, exactly when the approval keys of
the actions in front of the refused one are the keys that were accepted in their place. -/
theorem contractRebuildInto_kept_iff (initial : Contract) (history : List ContractAcceptedAction)
    (state : ApprovalBuffer) (current : Contract) :
    (∀ reached status,
        contractRebuildInto initial history state current = (reached, .error status) →
        reached.2 = current ∧ state.Kept reached.1) ↔
      (state.acceptedCount ≤ state.acceptedCapacity →
        ∀ past entry working status, past ++ [entry] <+: history →
          past.foldlM contractRebuildStep
            (contractApprovalStateInitialize state.acceptedCapacity, initial) = .ok working →
          contractRebuildStep working entry = .error status →
          (approvalKeys past).take state.acceptedCount <+: state.slots) := by
  constructor
  · intro hkept hcount past entry working status hprefix hpast hrefused
    obtain ⟨hfits, hkeys⟩ := foldlM_rebuildStep_fits hpast
    have hrun := InPlace.run_of_refused hprefix hpast hrefused
    have hresult : contractRebuildInto initial history state current =
        (({ holding state.slots working.1 with acceptedCount := state.acceptedCount }, current),
          .error status) := by
      rw [contractRebuildInto, if_neg (not_lt.mpr hcount), run_rebuildStep]
      simp only [acceptedCapacity] at hrun
      rw [hrun]
    rw [← hkeys]
    exact (kept_iff hfits).mp (hkept _ _ hresult).2
  · intro hheld reached status hresult
    rw [contractRebuildInto] at hresult
    split at hresult
    · obtain ⟨rfl, -⟩ := Prod.mk.inj hresult
      exact ⟨rfl, Kept.refl _⟩
    next hcount =>
    rw [not_lt] at hcount
    rw [run_rebuildStep] at hresult
    cases hrun : InPlace.run contractRebuildStep history
        (contractApprovalStateInitialize state.slots.length, initial) with
    | mk working outcome =>
    rw [hrun] at hresult
    cases outcome with
    | ok _ => cases (Prod.mk.inj hresult).2
    | error status' =>
        obtain ⟨rfl, -⟩ := Prod.mk.inj hresult
        obtain ⟨past, entry, hprefix, hpast, hrefused⟩ := InPlace.run_eq_error hrun
        obtain ⟨hfits, hkeys⟩ := foldlM_rebuildStep_fits hpast
        refine ⟨rfl, (kept_iff hfits).mpr ?_⟩
        rw [hkeys]
        exact hheld hcount past entry working _ hprefix hpast hrefused

/-- Both rebuilds leave a caller's state as it was, when they are refused, exactly when what
they wrote over its accepted keys is what stood there. -/
theorem contract_rebuild_atomic_iff :
    (∀ (state : ApprovalBuffer) (keys : List ApprovalKey),
      (∀ reached status, contractApprovalStateRebuild state keys = (reached, .error status) →
          state.Kept reached) ↔
        (state.acceptedCount ≤ state.acceptedCapacity → keys.length ≤ state.acceptedCapacity →
          ∀ past key, past ++ [key] <+: keys → past.Nodup → key ∈ past →
            past.take state.acceptedCount <+: state.slots)) ∧
    (∀ (initial : Contract) (history : List ContractAcceptedAction) (state : ApprovalBuffer)
        (current : Contract),
      (∀ reached status,
          contractRebuildInto initial history state current = (reached, .error status) →
          reached.2 = current ∧ state.Kept reached.1) ↔
        (state.acceptedCount ≤ state.acceptedCapacity →
          ∀ past entry working status, past ++ [entry] <+: history →
            past.foldlM contractRebuildStep
              (contractApprovalStateInitialize state.acceptedCapacity, initial) = .ok working →
            contractRebuildStep working entry = .error status →
            (approvalKeys past).take state.acceptedCount <+: state.slots)) :=
  ⟨contractApprovalStateRebuild_kept_iff, contractRebuildInto_kept_iff⟩

end Undone

section Sample

namespace Sample

/-- Primitives under which every contract has one address. -/
@[reducible] def oneAddress : Primitives where
  sha256 _ _ := .ok 1
  ed25519Verify _ _ _ := false

/-- The approver of a contract. -/
def reviewer : Octets 32 :=
  0x0b0b0b0b0b0b0b0b0b0b0b0b0b0b0b0b0b0b0b0b0b0b0b0b0b0b0b0b0b0b0b0b

/-- A contract in review with an issuer and one approver. -/
def inReview : Bytes :=
  [0x53, 0x54, 0x43, 0x54] ++ wireWrite 2 1 ++ wireWrite 2 1 ++ wireWrite 8 2 ++
    wireWrite 8 1000 ++ wireWrite 2 3 ++ wireWrite 2 2 ++ wireWrite 4 0 ++
    List.replicate 32 0x0a ++ wireWrite 2 2 ++ octetBytes reviewer ++ wireWrite 2 4

/-- What it decodes to. -/
def contractInReview : Contract where
  version := 1
  type := .generic
  sequence := 2
  createdAt := 1000
  state := .review
  participants := none
  participantCount := 2
  participantBytes := some (inReview.drop 32)
  terms := none
  termsLength := 0

/-- The approver's approval. -/
def reviewApproval : ContractAcceptedAction where
  action := .approve
  sequence := 3
  canonicalContract := inReview
  actor := reviewer

/-- A caller's approvals with the approval of another contract. -/
def heldApprovals : ApprovalBuffer :=
  ⟨[⟨2, 7, reviewer⟩, ⟨0, 0, 0⟩], 1⟩

end Sample

attribute [local instance] Sample.oneAddress

open Sample

/-- A key given twice, and an action given twice, are refused, and the caller's approval has
been replaced. -/
theorem sample_contract_rebuild_not_atomic :
    (∃ reached, contractApprovalStateRebuild heldApprovals [⟨1, 3, reviewer⟩, ⟨1, 3, reviewer⟩] =
        (reached, .error .duplicateApproval) ∧ ¬ heldApprovals.Kept reached) ∧
      ∃ reached, contractRebuildInto contractInReview [reviewApproval, reviewApproval]
          heldApprovals contractInReview = ((reached, contractInReview), .error .length) ∧
        ¬ heldApprovals.Kept reached := by
  refine ⟨⟨⟨[⟨1, 3, reviewer⟩, ⟨0, 0, 0⟩], 1⟩, by decide +kernel, ?_⟩,
    ⟨⟨[⟨1, 3, reviewer⟩, ⟨0, 0, 0⟩], 1⟩, by decide +kernel, ?_⟩⟩
  all_goals
    intro hkept
    exact absurd hkept.keys (by decide +kernel)

end Sample

end StnChain
