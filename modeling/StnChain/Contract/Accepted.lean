import StnChain.Contract.Entries

/-!
# Rebuilding a contract from its accepted actions

The application of already accepted actions and the rebuild of a contract from a history
of them (`stn_contract_accept_action` and `stn_contract_rebuild_accepted_state`).  An
approval moves the contract along the transition table and takes an approval key.
-/

namespace StnChain

variable [Primitives]

/-! ## Approval keys -/

/-- The 72 octets of an approval key: the contract, the action sequence, the actor. -/
structure ApprovalKey where
  contractId : Octets 32
  sequence : UInt64
  actor : Octets 32
  deriving DecidableEq

/-- `stn_contract_approval_state`. -/
structure ContractApprovalState where
  accepted : List ApprovalKey
  acceptedCapacity : ℕ
  deriving DecidableEq

/-- `stn_contract_approval_state_initialize`. -/
def contractApprovalStateInitialize (acceptedCapacity : ℕ) : ContractApprovalState :=
  ⟨[], acceptedCapacity⟩

/-- `stn_contract_approval_key`. -/
def contractApprovalKey (canonicalContract : Bytes) (sequence : UInt64) (actor : Octets 32) :
    Except ContractStatus ApprovalKey :=
  match contractAddress canonicalContract with
  | .error status => .error status
  | .ok address =>
      match identityDerive actor with
      | none => .error .authority
      | some canonicalActor => .ok ⟨address.identifier, sequence, canonicalActor⟩

/-- `stn_contract_approval_state_check`. -/
def contractApprovalStateCheck (state : ContractApprovalState) (key : ApprovalKey) :
    Except ContractStatus Unit :=
  if state.accepted.length > state.acceptedCapacity then .error .argument
  else if key ∈ state.accepted then .error .duplicateApproval
  else .ok ()

/-- `stn_contract_approval_state_consume`. -/
def contractApprovalStateConsume (state : ContractApprovalState) (key : ApprovalKey) :
    Except ContractStatus ContractApprovalState :=
  match contractApprovalStateCheck state key with
  | .error status => .error status
  | .ok () =>
      if state.accepted.length = state.acceptedCapacity then .error .capacity
      else .ok { state with accepted := state.accepted ++ [key] }

/-! ## Accepted actions -/

/-- The participants of a contract are those of a decoded one. -/
def participantsMatch (current decoded : Contract) : Except ContractStatus Unit :=
  if current.participantCount = 0 then .ok ()
  else
    match current.participants with
    | some participants =>
        (List.range current.participantCount).forM fun i =>
          match contractParticipantAt decoded i with
          | .error status => .error status
          | .ok participant =>
              if participants[i]? ≠ some participant then .error .length else .ok ()
    | none =>
        match current.participantBytes with
        | none => .error .argument
        | some span =>
            let size := current.participantCount * contractParticipantSize
            if span.take size ≠ (decoded.participantBytes.getD []).take size then .error .length
            else .ok ()

/-- The terms of a contract are those of a decoded one. -/
def termsMatch (current decoded : Contract) : Except ContractStatus Unit :=
  if current.termsLength = 0 then .ok ()
  else
    match current.terms, decoded.terms with
    | some terms, some terms' =>
        if terms.take current.termsLength ≠ terms'.take current.termsLength then .error .length
        else .ok ()
    | _, _ => .error .argument

/-- `contract_matches_canonical`. -/
def contractMatchesCanonical (current : Contract) (canonicalContract : Bytes) :
    Except ContractStatus Unit :=
  match contractDecode canonicalContract with
  | .error status => .error status
  | .ok decoded =>
      if current.version ≠ decoded.version ∨ current.type ≠ decoded.type ∨
          current.sequence ≠ decoded.sequence ∨ current.createdAt ≠ decoded.createdAt ∨
          current.state ≠ decoded.state ∨ current.participantCount ≠ decoded.participantCount ∨
          current.termsLength ≠ decoded.termsLength then .error .length
      else
        match participantsMatch current decoded with
        | .error status => .error status
        | .ok () => termsMatch current decoded

/-- `stn_contract_accept_action`: the approval state and the next contract. -/
def contractAcceptAction (current : Contract) (action : ContractAction)
    (expectedSequence : UInt64) (canonicalContract : Bytes) (actor : Octets 32)
    (approvals : ContractApprovalState) :
    Except ContractStatus (ContractApprovalState × Contract) :=
  match contractMatchesCanonical current canonicalContract with
  | .error status => .error status
  | .ok () =>
      match contractApplyAction current action expectedSequence with
      | .error status => .error status
      | .ok updated =>
          if action ≠ .approve then .ok (approvals, updated)
          else
            match contractApprovalKey canonicalContract expectedSequence actor with
            | .error status => .error status
            | .ok key =>
                match contractApprovalStateCheck approvals key with
                | .error status => .error status
                | .ok () =>
                    if approvals.accepted.length = approvals.acceptedCapacity then
                      .error .capacity
                    else
                      match contractApprovalStateConsume approvals key with
                      | .error status => .error status
                      | .ok approvals => .ok (approvals, updated)

/-- `stn_contract_accepted_action`. -/
structure ContractAcceptedAction where
  action : ContractAction
  sequence : UInt64
  canonicalContract : Bytes
  actor : Octets 32

/-- One round of the rebuild. -/
def contractRebuildStep (working : ContractApprovalState × Contract)
    (entry : ContractAcceptedAction) :
    Except ContractStatus (ContractApprovalState × Contract) :=
  contractAcceptAction working.2 entry.action entry.sequence entry.canonicalContract entry.actor
    working.1

/-- `stn_contract_rebuild_accepted_state`: the rebuilt approval state and contract. -/
def contractRebuildAcceptedState (initial : Contract) (history : List ContractAcceptedAction)
    (approvals : ContractApprovalState) :
    Except ContractStatus (ContractApprovalState × Contract) :=
  if approvals.accepted.length > approvals.acceptedCapacity then .error .argument
  else history.foldlM contractRebuildStep ({ approvals with accepted := [] }, initial)

/-! ## Accepted actions bind the current contract -/

section Accept

variable {current decoded : Contract}

omit [Primitives] in
theorem participantsMatch_eq_ok_iff (h : current.Decoded) (h' : decoded.Decoded)
    (hcount : current.participantCount = decoded.participantCount) :
    participantsMatch current decoded = .ok () ↔
      current.participantBytes = decoded.participantBytes := by
  rw [participantsMatch]
  by_cases hzero : current.participantCount = 0
  · rw [if_pos hzero, h.packed.mpr hzero, h'.packed.mpr (hcount ▸ hzero)]
    simp
  · rw [if_neg hzero, h.participants]
    cases hspan : current.participantBytes with
    | none => exact absurd (h.packed.mp hspan) hzero
    | some span =>
        cases hspan' : decoded.participantBytes with
        | none => exact absurd (h'.packed.mp hspan') (hcount ▸ hzero)
        | some span' =>
            have htake := List.take_of_length_le (h.packedLength span hspan).le
            have htake' := List.take_of_length_le (hcount ▸ h'.packedLength span' hspan').le
            simp only [Option.getD_some, htake, htake', Option.some.injEq]
            by_cases heq : span = span'
            · simp [heq]
            · simp [heq]

omit [Primitives] in
theorem termsMatch_eq_ok_iff (h : current.Decoded) (h' : decoded.Decoded)
    (hlength : current.termsLength = decoded.termsLength) :
    termsMatch current decoded = .ok () ↔ current.terms = decoded.terms := by
  rw [termsMatch]
  by_cases hzero : current.termsLength = 0
  · rw [if_pos hzero, h.terms.mpr hzero, h'.terms.mpr (hlength ▸ hzero)]
    simp
  · rw [if_neg hzero]
    cases hspan : current.terms with
    | none => exact absurd (h.terms.mp hspan) hzero
    | some span =>
        cases hspan' : decoded.terms with
        | none => exact absurd (h'.terms.mp hspan') (hlength ▸ hzero)
        | some span' =>
            have htake := List.take_of_length_le (h.termsSpan span hspan).le
            have htake' := List.take_of_length_le (hlength ▸ h'.termsSpan span' hspan').le
            simp only [htake, htake', Option.some.injEq]
            by_cases heq : span = span'
            · simp [heq]
            · simp [heq]

omit [Primitives] in
/-- A decoded contract matches exactly the octets it decodes from. -/
theorem contractMatchesCanonical_eq_ok_iff (h : current.Decoded) {canonicalContract : Bytes} :
    contractMatchesCanonical current canonicalContract = .ok () ↔
      contractDecode canonicalContract = .ok current := by
  rw [contractMatchesCanonical]
  cases hdecode : contractDecode canonicalContract with
  | error status => simp
  | ok decoded =>
      have h' := contractDecode_decoded hdecode
      constructor
      · intro hmatch
        simp only at hmatch
        split at hmatch
        · cases hmatch
        next hheader =>
        simp only [not_or, not_not] at hheader
        obtain ⟨hversion, htype, hsequence, hcreated, hstate, hcount, hlength⟩ := hheader
        split at hmatch
        · cases hmatch
        next hpacked =>
        have hbytes := (participantsMatch_eq_ok_iff h h' hcount).mp hpacked
        have hterms := (termsMatch_eq_ok_iff h h' hlength).mp hmatch
        have hnative : current.participants = decoded.participants := by
          rw [h.participants, h'.participants]
        cases current
        cases decoded
        simp_all
      · intro heq
        obtain rfl := Except.ok.inj heq
        simp [(participantsMatch_eq_ok_iff h h rfl).mpr rfl, (termsMatch_eq_ok_iff h h rfl).mpr rfl]

/-- An approval key names the contract of the octets and a canonical actor. -/
theorem contractApprovalKey_eq_ok_iff {canonicalContract : Bytes} {address : Address}
    (haddress : contractAddress canonicalContract = .ok address) {sequence : UInt64}
    {actor : Octets 32} {key : ApprovalKey} :
    contractApprovalKey canonicalContract sequence actor = .ok key ↔
      identityDerive actor = some actor ∧ key = ⟨address.identifier, sequence, actor⟩ := by
  simp only [contractApprovalKey, haddress]
  cases hactor : identityDerive actor with
  | none => simp
  | some canonicalActor =>
      obtain rfl := identityDerive_eq_some hactor
      simp [eq_comm]

/-- The approvals taken so far were taken at earlier sequences. -/
structure ApprovalsEarlier (approvals : ContractApprovalState) (sequence : UInt64) : Prop where
  room : approvals.accepted.length ≤ approvals.acceptedCapacity
  earlier : ∀ key ∈ approvals.accepted, key.sequence.toNat ≤ sequence.toNat

omit [Primitives] in
/-- An approval at the next sequence is taken as long as there is room. -/
theorem ApprovalsEarlier.check {approvals : ContractApprovalState} {sequence : UInt64}
    (h : ApprovalsEarlier approvals sequence) {key : ApprovalKey}
    (hkey : key.sequence.toNat = sequence.toNat + 1) :
    contractApprovalStateCheck approvals key = .ok () := by
  rw [contractApprovalStateCheck, if_neg (not_lt.mpr h.room), if_neg]
  intro hmem
  have := h.earlier key hmem
  omega

/-- A round of the rebuild on an action other than an approval. -/
theorem contractRebuildStep_act_eq_ok_iff (h : current.Decoded)
    {approvals : ContractApprovalState} {entry : ContractAcceptedAction}
    (haction : entry.action ≠ .approve) {r : ContractApprovalState × Contract} :
    contractRebuildStep (approvals, current) entry = .ok r ↔
      contractDecode entry.canonicalContract = .ok current ∧
      current.sequence ≠ 0xffffffffffffffff ∧ entry.sequence = current.sequence + 1 ∧
      ∃ moved, contractTransition current.state entry.action = some moved ∧
        r = (approvals, current.moveTo entry.sequence moved) := by
  simp only [contractRebuildStep, contractAcceptAction]
  constructor
  · intro hok
    split at hok
    · cases hok
    next hmatch =>
    split at hok
    · cases hok
    next updated hupdated =>
    rw [if_pos haction] at hok
    obtain rfl := Except.ok.inj hok
    obtain ⟨hbounded, hnext, moved, htransition, rfl⟩ :=
      (contractApplyAction_eq_ok_iff h.version).mp hupdated
    exact ⟨(contractMatchesCanonical_eq_ok_iff h).mp hmatch, hbounded, hnext, moved,
      htransition, rfl⟩
  · rintro ⟨hdecode, hbounded, hnext, moved, htransition, rfl⟩
    rw [(contractMatchesCanonical_eq_ok_iff h).mpr hdecode]
    simp only
    rw [(contractApplyAction_eq_ok_iff h.version).mpr ⟨hbounded, hnext, moved, htransition, rfl⟩]
    exact if_pos haction

/-- A round of the rebuild on an approval. -/
theorem contractRebuildStep_approve_eq_ok_iff (h : current.Decoded)
    {approvals : ContractApprovalState} (hearlier : ApprovalsEarlier approvals current.sequence)
    {entry : ContractAcceptedAction} (haction : entry.action = .approve) {address : Address}
    (haddress : contractAddress entry.canonicalContract = .ok address)
    {r : ContractApprovalState × Contract} :
    contractRebuildStep (approvals, current) entry = .ok r ↔
      contractDecode entry.canonicalContract = .ok current ∧
      current.sequence ≠ 0xffffffffffffffff ∧ entry.sequence = current.sequence + 1 ∧
      identityDerive entry.actor = some entry.actor ∧
      approvals.accepted.length < approvals.acceptedCapacity ∧
      ∃ moved, contractTransition current.state .approve = some moved ∧
        r = ({ approvals with accepted := approvals.accepted ++
          [⟨address.identifier, entry.sequence, entry.actor⟩] },
          current.moveTo entry.sequence moved) := by
  simp only [contractRebuildStep, contractAcceptAction, haction]
  have hroom := hearlier.room
  constructor
  · intro hok
    split at hok
    · cases hok
    next hmatch =>
    split at hok
    · cases hok
    next updated hupdated =>
    obtain ⟨hbounded, hnext, moved, htransition, rfl⟩ :=
      (contractApplyAction_eq_ok_iff h.version).mp hupdated
    rw [if_neg (not_not.mpr rfl)] at hok
    split at hok
    · cases hok
    next key hkey =>
    obtain ⟨hactor, rfl⟩ := (contractApprovalKey_eq_ok_iff haddress).mp hkey
    split at hok
    · cases hok
    next hcheck =>
    split at hok
    · cases hok
    next hfull =>
    simp only [contractApprovalStateConsume, hcheck, if_neg hfull] at hok
    obtain rfl := Except.ok.inj hok
    exact ⟨(contractMatchesCanonical_eq_ok_iff h).mp hmatch, hbounded, hnext, hactor,
      by omega, moved, htransition, rfl⟩
  · rintro ⟨hdecode, hbounded, hnext, hactor, hspare, moved, htransition, rfl⟩
    have hcheck : contractApprovalStateCheck approvals
        ⟨address.identifier, entry.sequence, entry.actor⟩ = .ok () := by
      apply hearlier.check
      rw [hnext]
      exact toNat_next hbounded
    rw [(contractMatchesCanonical_eq_ok_iff h).mpr hdecode]
    simp only
    rw [(contractApplyAction_eq_ok_iff h.version).mpr ⟨hbounded, hnext, moved, htransition, rfl⟩]
    simp only [ne_eq, not_true_eq_false, if_false,
      (contractApprovalKey_eq_ok_iff haddress).mpr ⟨hactor, rfl⟩, hcheck,
      contractApprovalStateConsume, if_neg hspare.ne]

/-- Without an address the rebuild takes no approval. -/
theorem contractRebuildStep_no_address {status : ContractStatus} {approvals : ContractApprovalState}
    {action : ContractAcceptedAction}
    (haction : action.action = .approve)
    (haddress : contractAddress action.canonicalContract = .error status)
    (working : ContractApprovalState × Contract) :
    contractRebuildStep (approvals, current) action ≠ .ok working := by
  simp only [contractRebuildStep, contractAcceptAction, haction]
  split
  · exact nofun
  split
  · exact nofun
  rw [if_neg (not_not.mpr rfl), contractApprovalKey, haddress]
  exact nofun

/-- What the rebuild keeps: the contract is the initial one at another point, and its
approvals were taken at the sequences passed. -/
structure RebuildHolds (initial : Contract) (capacity : ℕ)
    (working : ContractApprovalState × Contract) : Prop where
  contract : working.2 = initial.moveTo working.2.sequence working.2.state
  earlier : ApprovalsEarlier working.1 working.2.sequence
  capacity : working.1.acceptedCapacity = capacity

theorem contractRebuildStep_holds {initial : Contract} (hinitial : initial.Decoded)
    {action : ContractAcceptedAction} {capacity : ℕ}
    {working working' : ContractApprovalState × Contract}
    (h : RebuildHolds initial capacity working)
    (hstep : contractRebuildStep working action = .ok working') :
    RebuildHolds initial capacity working' := by
  obtain ⟨approvals, current⟩ := working
  have hcontract : current = initial.moveTo current.sequence current.state := h.contract
  have hearlier : ApprovalsEarlier approvals current.sequence := h.earlier
  have hform : current.Decoded := by
    rw [hcontract]
    exact hinitial.moveTo _ _
  have hmoved : ∀ sequence moved,
      current.moveTo sequence moved = initial.moveTo sequence moved := by
    intro sequence moved
    rw [hcontract, Contract.moveTo_moveTo]
  have hpassed : current.sequence ≠ 0xffffffffffffffff →
      action.sequence = current.sequence + 1 →
      ∀ key ∈ approvals.accepted, key.sequence.toNat ≤ action.sequence.toNat := by
    intro hbounded hnext key hkey
    have hkeys := hearlier.earlier key hkey
    rw [hnext, toNat_next hbounded]
    omega
  by_cases haction : action.action = .approve
  · cases haddress : contractAddress action.canonicalContract with
    | error status => exact absurd hstep (contractRebuildStep_no_address haction haddress _)
    | ok address =>
        obtain ⟨-, hbounded, hnext, -, hspare, moved, -, rfl⟩ :=
          (contractRebuildStep_approve_eq_ok_iff hform hearlier haction haddress).mp hstep
        refine ⟨hmoved _ _, ⟨?_, ?_⟩, h.capacity⟩
        · rw [List.length_append, List.length_singleton]
          exact hspare
        · intro key hkey
          rcases List.mem_append.mp hkey with hkey | hkey
          · exact hpassed hbounded hnext key hkey
          · obtain rfl := List.mem_singleton.mp hkey
            exact le_refl _
  · obtain ⟨-, hbounded, hnext, moved, -, rfl⟩ :=
      (contractRebuildStep_act_eq_ok_iff hform haction).mp hstep
    exact ⟨hmoved _ _, ⟨hearlier.room, hpassed hbounded hnext⟩, h.capacity⟩

end Accept

end StnChain
