import StnChain.Chain.Rewards
import StnChain.Chain.Transfers

/-!
# Compensation destinations in accepted histories

The mapping from miners to wallets is what the destination transactions of a history
say, the first for each miner (`Reaches.walletOf`).  An issuance is credited to the wallet
that the transactions in front of it map the miner of its evidence to
(`compensation_honoured`).
-/

namespace StnChain

section

variable [Primitives]

/-! ## The mapping of a sequence of transactions -/

/-- The destination a transaction carries. -/
def Transaction.destination (tx : Transaction) : Option CompensationDestination :=
  if tx.type = .compensationDestination then (compensationDestinationDecode tx.record).toOption
  else none

/-- The wallet a transaction names for a miner. -/
def Transaction.names (tx : Transaction) (miner : Octets 32) : Option (Octets 32) :=
  tx.destination.bind fun d =>
    if d.miningIdentity.identifier = miner then some d.wallet.identifier else none

/-- The wallet some transactions name for a miner: the first they name. -/
def namedWallet (txs : List Transaction) (miner : Octets 32) : Option (Octets 32) :=
  txs.findSome? fun tx => tx.names miner

omit [Primitives] in
theorem namedWallet_append (txs rest : List Transaction) (miner : Octets 32) :
    namedWallet (txs ++ rest) miner = (namedWallet txs miner).or (namedWallet rest miner) :=
  List.findSome?_append

omit [Primitives] in
theorem names_of_type {tx : Transaction} (h : tx.type ≠ .compensationDestination)
    (miner : Octets 32) : tx.names miner = none := by
  simp [Transaction.names, Transaction.destination, h]

omit [Primitives] in
theorem walletOf_components {prior candidate : ChainState} (h : ComponentsOf prior candidate)
    (miner : Octets 32) :
    candidate.compensation.walletOf miner = prior.compensation.walletOf miner := by
  simp only [CompensationState.walletOf, h.compensation]

/-- A destination names a wallet for a miner that has none; no other transaction does. -/
theorem walletOf_advances (miner : Octets 32) :
    Advances (fun s => s.compensation.walletOf miner)
      fun wallet tx => wallet.or (tx.names miner) where
  inherit h := walletOf_components h miner
  single {env tx s s'} h := by
    cases stepOf_of_applyTransaction h with
    | destination htype happly =>
        simp only [applyDestination] at happly
        split at happly
        · simp at happly
        next d hdecode =>
        have hnames : tx.names miner =
            if d.miningIdentity.identifier = miner then some d.wallet.identifier else none := by
          simp [Transaction.names, Transaction.destination, htype, hdecode, Except.toOption]
        rw [hnames]
        exact compensationStateApply_walletOf happly miner
    | issuance htype _ | transfer htype _ | contract htype _ | share htype _ =>
        simp [names_of_type (show tx.type ≠ .compensationDestination by simp [htype])]
    | lifecycle htype _ =>
        have hne : tx.type ≠ .compensationDestination := by
          rintro heq
          simp [heq, TransactionType.isLifecycle] at htype
        simp [names_of_type hne]
  pair {env tx tx' next s s'} htype hdecode h := by
    obtain ⟨_, tx'', _, _, _, _, _, hdecode', htype', _, _, _, _, _, rfl⟩ := applyPair_eq_ok h
    obtain rfl := Except.ok.inj (hdecode.symm.trans hdecode')
    simp [names_of_type (show tx.type ≠ .compensationDestination by simp [htype]),
      names_of_type (show tx'.type ≠ .compensationDestination by simp [htype'])]

omit [Primitives] in
theorem foldl_names (txs : List Transaction) (miner : Octets 32) (wallet : Option (Octets 32)) :
    txs.foldl (fun wallet tx => wallet.or (tx.names miner)) wallet =
      wallet.or (namedWallet txs miner) := by
  induction txs generalizing wallet with
  | nil => simp [namedWallet]
  | cons tx txs ih =>
      have hcons : namedWallet (tx :: txs) miner = (tx.names miner).or (namedWallet txs miner) := by
        simp only [namedWallet, List.findSome?_cons]
        cases tx.names miner <;> rfl
      rw [List.foldl_cons, ih, hcons, Option.or_assoc]

/-- The accepted mapping is the one the transactions name. -/
theorem Reaches.walletOf {c : ChainContext} {blocks : List Bytes} {s : ChainState}
    (h : Reaches c blocks s) (miner : Octets 32) :
    s.compensation.walletOf miner = namedWallet (historyTransactions blocks) miner := by
  rw [h.fold (walletOf_advances miner) fun _ => rfl, foldl_names, Option.none_or]

/-! ## Lookups -/

/-- The accepted mapping sends identities to wallets. -/
def CompensationState.Typed (s : CompensationState) : Prop :=
  ∀ e ∈ s.entries, e.miningIdentity.type = .identity ∧ e.wallet.type = .wallet

theorem typed_preserved : Preserved fun s => s.compensation.Typed where
  inherit h hs := by
    intro e he
    exact hs e (h.compensation ▸ he)
  single h hs := by
    cases stepOf_of_applyTransaction h with
    | destination _ happly =>
        simp only [applyDestination] at happly
        split at happly
        · simp at happly
        have htypes := compensationStateApply_types happly
        rcases compensationStateApply_cases happly with ⟨rfl, -⟩ | ⟨-, -, rfl⟩
        · exact hs
        intro e he
        rcases SortedTable.mem_insert.mp he with rfl | he
        · exact htypes
        · exact hs e he
    | issuance _ _ | transfer _ _ | contract _ _ | share _ _ | lifecycle _ _ => exact hs
  pair h hs := by
    obtain ⟨_, _, _, _, _, _, _, _, _, _, _, _, _, _, rfl⟩ := applyPair_eq_ok h
    exact hs

omit [Primitives] in
/-- A lookup of an identity reads the mapping. -/
theorem CompensationState.Typed.lookup {s : CompensationState} (h : s.Typed)
    (hwell : s.WellFormed) (miner : Octets 32) :
    compensationStateLookup s ⟨.identity, miner⟩ =
      match s.walletOf miner with
      | some wallet => .ok ⟨.wallet, wallet⟩
      | none => .error .unresolved := by
  simp only [compensationStateLookup, ne_eq, not_true_eq_false, if_false,
    if_neg (not_lt.mpr hwell.within), CompensationState.walletOf]
  cases hfind : SortedTable.find CompensationDestination.key miner.toNat s.entries with
  | none => rfl
  | some e =>
      have hwallet := (h e (SortedTable.mem_of_find_eq_some hfind).1).2
      simp only [Option.map_some, ← hwallet]

/-! ## Issuances -/

/-- After `past` the loop over the transactions of a block has passed over `pre`. -/
def LoopAt (c : ChainContext) (past : List Bytes) (bytes : Bytes) (pre : List Bytes)
    (s : ChainState) : Prop :=
  ∃ prior b flags candidate, Reaches c past prior ∧
    CandidatePrepared c prior bytes true b flags candidate ∧
    applyTransactions (candidateEnv c prior (some past) b flags) pre candidate = .ok s

/-- An issuance credits the wallet that the transactions in front of it name for a miner,
which is the wallet of its record, and no other wallet. -/
structure CreditsMiner (c : ChainContext) (past : List Bytes) (bytes : Bytes)
    (pre post : List Bytes) (r : IssuanceRecord) (miner : Address) : Prop where
  named : namedWallet (historyTransactions past ++ decodedTransactions pre) miner.identifier =
    some r.destination.wallet.identifier
  credited : ∃ before after, LoopAt c past bytes pre before ∧ LoopAt c past bytes post after ∧
    compensationStateLookup before.compensation miner = .ok r.destination.wallet ∧
    ∀ wallet, ∃ units units',
      economicStateBalance before.economy.state ⟨.wallet, wallet⟩ = .ok units ∧
      economicStateBalance after.economy.state ⟨.wallet, wallet⟩ = .ok units' ∧
      units'.toNat = units.toNat +
        if r.destination.wallet.identifier = wallet then r.units.toNat else 0

/-- An issuance of a block, behind the transactions `pre`: for a share of the accepted
prefix, or for the block evidence directly in front of it. -/
inductive IssuanceHonoured (c : ChainContext) (past : List Bytes) (bytes : Bytes)
    (pre : List Bytes) (t : Bytes) (r : IssuanceRecord) : Prop
  | share (share : ShareEvidence) (hreason : r.reason = issuanceReasonShare)
      (hshare : share ∈ historyShares past) (hid : shareId share = .ok r.evidenceId)
      (hcredits : CreditsMiner c past bytes pre (pre ++ [t]) r share.miner) :
      IssuanceHonoured c past bytes pre t r
  | block (front : List Bytes) (te : Bytes) (etx : Transaction) (e : BlockCompensationEvidence)
      (hreason : r.reason = issuanceReasonBlock) (hpre : pre = front ++ [te])
      (hdecode : transactionDecode te = .ok etx) (hevidence : etx.blockEvidence = some e)
      (hid : blockCompensationId e = .ok r.evidenceId)
      (hcredits : CreditsMiner c past bytes front (pre ++ [t]) r e.miner) :
      IssuanceHonoured c past bytes pre t r

/-- An issuance has a round of its own or ends the round of the evidence in front of it. -/
theorem Applied.issuance_at {env : CandidateEnv} {pre post : List Bytes} {t : Bytes}
    {tx : Transaction} {s s' : ChainState} (h : Applied env (pre ++ t :: post) s s')
    (hdecode : transactionDecode t = .ok tx) (htype : tx.type = .issuance) :
    (∃ before after, Applied env pre s before ∧ applyTransaction env tx before = .ok after) ∨
      ∃ front te etx before after, pre = front ++ [te] ∧ transactionDecode te = .ok etx ∧
        etx.type = .blockCompensationEvidence ∧ Applied env front s before ∧
        applyPair env etx t before = .ok after := by
  generalize hts : pre ++ t :: post = ts at h
  induction h generalizing pre with
  | nil => simp at hts
  | @single bytes tx' rest s s₁ s' hdecode' htype' hstep hrest ih =>
      cases pre with
      | nil =>
          obtain ⟨rfl, rfl⟩ := List.cons_eq_cons.mp hts
          obtain rfl := Except.ok.inj (hdecode.symm.trans hdecode')
          exact .inl ⟨s, s₁, .nil, hstep⟩
      | cons t' pre =>
          obtain ⟨rfl, htail⟩ := List.cons_eq_cons.mp hts
          rcases ih htail with ⟨before, after, hpre, hround⟩ |
            ⟨front, te, etx, before, after, rfl, hte, hetype, hfront, hpair⟩
          · exact .inl ⟨before, after, .single hdecode' htype' hstep hpre, hround⟩
          · exact .inr ⟨t' :: front, te, etx, before, after, rfl, hte, hetype,
              .single hdecode' htype' hstep hfront, hpair⟩
  | @pair bytes next tx' rest s s₁ s' hdecode' htype' hstep hrest ih =>
      rcases pre with _ | ⟨t', _ | ⟨t'', pre⟩⟩
      · obtain ⟨rfl, -⟩ := List.cons_eq_cons.mp hts
        obtain rfl := Except.ok.inj (hdecode.symm.trans hdecode')
        simp [htype] at htype'
      · obtain ⟨rfl, htail⟩ := List.cons_eq_cons.mp hts
        obtain ⟨rfl, -⟩ := List.cons_eq_cons.mp htail
        exact .inr ⟨[], t', tx', s, s₁, rfl, hdecode', htype', .nil, hstep⟩
      · obtain ⟨rfl, htail⟩ := List.cons_eq_cons.mp hts
        obtain ⟨rfl, htail'⟩ := List.cons_eq_cons.mp htail
        rcases ih htail' with ⟨before, after, hpre, hround⟩ |
          ⟨front, te, etx, before, after, rfl, hte, hetype, hfront, hpair⟩
        · exact .inl ⟨before, after, .pair hdecode' htype' hstep hpre, hround⟩
        · exact .inr ⟨t' :: t'' :: front, te, etx, before, after, rfl, hte, hetype,
            .pair hdecode' htype' hstep hfront, hpair⟩

/-- At a point of a block's loop the mapping is the one the transactions up to there name, and
the balances are conserved. -/
structure MappedBy (txs : List Transaction) (s : ChainState) : Prop where
  wellFormed : s.compensation.WellFormed
  typed : s.compensation.Typed
  conserved : s.economy.state.Conserved
  wallet : ∀ miner, s.compensation.walletOf miner = namedWallet txs miner

theorem Applied.mappedBy {c : ChainContext} {past : List Bytes} {bytes : Bytes}
    {prior candidate s : ChainState} {b : Block} {flags : CandidateFlags} {pre : List Bytes}
    (hprior : Reaches c past prior)
    (hprepared : CandidatePrepared c prior bytes true b flags candidate)
    (hpre : Applied (candidateEnv c prior (some past) b flags) pre candidate s) :
    MappedBy (historyTransactions past ++ decodedTransactions pre) s := by
  obtain ⟨-, -, -, -, -, -, hinherit⟩ := hprepared.next_state
  constructor
  · exact hpre.preserves wellFormed_preserved (wellFormed_preserved.inherit hinherit
      (hprior.preserves wellFormed_preserved (emptyState_wellFormed c)))
  · exact hpre.preserves typed_preserved (typed_preserved.inherit hinherit
      (hprior.preserves typed_preserved fun _ _ he => absurd he List.not_mem_nil))
  · exact hpre.preserves conserved_preserved (conserved_preserved.inherit hinherit
      (hprior.preserves conserved_preserved (emptyState_conserved c)))
  · intro miner
    rw [hpre.fold (walletOf_advances miner), foldl_names, walletOf_components hinherit,
      hprior.walletOf, namedWallet_append]

omit [Primitives] in
/-- A mapping that gives the wallet of a record for a miner names that wallet. -/
theorem MappedBy.named {txs : List Transaction} {s : ChainState} (h : MappedBy txs s)
    {miner wallet mapped : Address} (hminer : miner.type = .identity)
    (hwallet : wallet.type = .wallet)
    (hlookup : compensationStateLookup s.compensation miner = .ok mapped)
    (hmapped : mapped.identifier = wallet.identifier) :
    compensationStateLookup s.compensation miner = .ok wallet ∧
      namedWallet txs miner.identifier = some wallet.identifier := by
  obtain ⟨_, miner⟩ := miner
  obtain rfl := hminer
  obtain ⟨_, wallet⟩ := wallet
  obtain rfl := hwallet
  obtain rfl : mapped.identifier = wallet := hmapped
  have htyped := h.typed.lookup h.wellFormed miner
  rw [h.wallet] at htyped
  rw [htyped] at hlookup ⊢
  cases hnamed : namedWallet txs miner with
  | none => simp [hnamed] at hlookup
  | some named =>
      simp only [hnamed, Except.ok.injEq] at hlookup
      rw [← hlookup]
      exact ⟨rfl, rfl⟩

theorem issuanceBindShare_lookup {r : IssuanceRecord} {share : ShareEvidence}
    {compensation : CompensationState} (h : issuanceBindShare r share compensation = .ok ()) :
    share.miner.type = .identity ∧ ∃ mapped,
      compensationStateLookup compensation share.miner = .ok mapped ∧
      mapped.identifier = r.destination.wallet.identifier := by
  simp only [issuanceBindShare] at h
  split at h
  · simp at h
  split at h
  · simp at h
  next htypes =>
  split at h
  · simp at h
  obtain ⟨id, -, h⟩ := bind_eq_ok_iff.mp h
  split at h
  · simp at h
  obtain ⟨mapped, hmapped, h⟩ := bind_eq_ok_iff.mp h
  split at h
  · simp at h
  next hwallet => exact ⟨not_not.mp (not_or.mp htypes).1, mapped, hmapped, not_not.mp hwallet⟩

theorem issuanceBindBlock_lookup {r : IssuanceRecord} {e : BlockCompensationEvidence}
    {compensation : CompensationState} (h : issuanceBindBlock r e compensation = .ok ()) :
    e.miner.type = .identity ∧ ∃ mapped,
      compensationStateLookup compensation e.miner = .ok mapped ∧
      mapped.identifier = r.destination.wallet.identifier := by
  simp only [issuanceBindBlock] at h
  split at h
  · simp at h
  split at h
  · simp at h
  next htypes =>
  split at h
  · simp at h
  obtain ⟨id, -, h⟩ := bind_eq_ok_iff.mp h
  split at h
  · simp at h
  obtain ⟨mapped, hmapped, h⟩ := bind_eq_ok_iff.mp h
  split at h
  · simp at h
  next hwallet => exact ⟨not_not.mp (not_or.mp htypes).1, mapped, hmapped, not_not.mp hwallet⟩

omit [Primitives] in
/-- An applied issuance shows in the balances. -/
theorem MappedBy.balances {txs : List Transaction} {s : ChainState} (h : MappedBy txs s)
    {state : EconomicState} {r : IssuanceRecord}
    (happly : economicStateApply s.economy.state r = .ok state) (wallet : Octets 32) :
    ∃ units units', economicStateBalance s.economy.state ⟨.wallet, wallet⟩ = .ok units ∧
      economicStateBalance state ⟨.wallet, wallet⟩ = .ok units' ∧
      units'.toNat = units.toNat +
        if r.destination.wallet.identifier = wallet then r.units.toNat else 0 := by
  obtain ⟨units, hunits, hexact⟩ := h.conserved.balance wallet
  obtain ⟨hafter, -⟩ := economicStateApply_conserved h.conserved happly
  obtain ⟨units', hunits', hexact'⟩ := hafter.balance wallet
  refine ⟨units, units', hunits, hunits', ?_⟩
  rw [hexact, hexact', economicStateApply_credits happly wallet]

/-- Every issuance of an accepted history is honoured. -/
theorem Reaches.issuance_honoured {c : ChainContext} {past rest : List Bytes} {bytes : Bytes}
    {s : ChainState} (h : Reaches c (past ++ bytes :: rest) s) {pre post : List Bytes} {t : Bytes}
    {tx : Transaction} (hblock : blockTransactions bytes = pre ++ t :: post)
    (hdecode : transactionDecode t = .ok tx) (htype : tx.type = .issuance) :
    ∃ r, issuanceDecode tx.record = .ok r ∧ IssuanceHonoured c past bytes pre t r := by
  obtain ⟨prior, s', hprior, hstep, -⟩ := h.step_at
  obtain ⟨b, flags, candidate, hprepared, happlied⟩ := reconstructStep_eq_ok_iff.mp hstep
  rw [← blockTransactions_of_decode hprepared.decode, hblock] at happlied
  have hpoint {front : List Bytes} {at' : ChainState}
      (hfront : Applied (candidateEnv c prior (some past) b flags) front candidate at') :
      LoopAt c past bytes front at' :=
    ⟨prior, b, flags, candidate, hprior, hprepared, applyTransactions_eq_ok_iff.mpr hfront⟩
  rcases happlied.issuance_at hdecode htype with ⟨before, after, hpre, hround⟩ |
    ⟨front, te, etx, before, after, rfl, hte, hetype, hfront, hpair⟩
  · have hmapping := hpre.mappedBy hprior hprepared
    have hafter := hpoint (hpre.append (.single hdecode (by simp [htype]) hround .nil))
    cases stepOf_of_applyTransaction hround with
    | issuance _ happly =>
        obtain ⟨r, _, blocks, hrecord, hreason, -, -, hhistory, hbinds, heconomy⟩ :=
          applyIssuance_eq_ok happly
        obtain rfl : past = blocks := Option.some.inj hhistory
        obtain ⟨share, hshare, hbind⟩ := historyBindsShare_eq_true hbinds
        obtain ⟨-, hid, -⟩ := issuanceBindShare_spec hbind
        obtain ⟨hminer, mapped, hlookup, hmapped⟩ := issuanceBindShare_lookup hbind
        obtain ⟨-, -, -, hfields⟩ := issuanceDecode_eq_ok hrecord
        obtain ⟨hwallet, hnamed⟩ :=
          hmapping.named hminer (by rw [hfields]) hlookup hmapped
        refine ⟨r, hrecord, .share share hreason hshare hid ⟨hnamed, before, _, hpoint hpre,
          hafter, hwallet, ?_⟩⟩
        exact hmapping.balances heconomy
    | transfer htype' _ | destination htype' _ | contract htype' _ | share htype' _ =>
        simp [htype] at htype'
    | lifecycle htype' _ => simp [htype, TransactionType.isLifecycle] at htype'
  · have hmapping := hfront.mappedBy hprior hprepared
    have hafter : LoopAt c past bytes (front ++ [te] ++ [t]) after := by
      rw [List.append_assoc]
      exact hpoint (hfront.append (.pair hte hetype hpair .nil))
    obtain ⟨e, tx', r, _, _, hevidence, -, hdecode', -, hrecord, hreason, hbind, -, heconomy,
      rfl⟩ := applyPair_eq_ok hpair
    obtain rfl := Except.ok.inj (hdecode.symm.trans hdecode')
    obtain ⟨hminer, mapped, hlookup, hmapped⟩ := issuanceBindBlock_lookup hbind
    obtain ⟨-, -, -, hfields⟩ := issuanceDecode_eq_ok hrecord
    obtain ⟨hwallet, hnamed⟩ := hmapping.named hminer (by rw [hfields]) hlookup hmapped
    have hsome : etx.blockEvidence = some e := by
      simp [Transaction.blockEvidence, hetype, hevidence, Except.toOption]
    refine ⟨r, hrecord, .block front te etx e hreason rfl hte hsome
      (issuanceBindBlock_evidenceId hbind) ⟨hnamed, before, _, hpoint hfront, hafter, hwallet, ?_⟩⟩
    exact hmapping.balances heconomy

/-- In an accepted history the mapping of miners to wallets is strictly sorted, it is the
one the destination transactions name, a further history keeps it, and every issuance for a
share or a block credits exactly the wallet named in front of it for the miner of its
evidence. -/
theorem compensation_honoured {c : ChainContext} {blocks : List Bytes} {s : ChainState}
    (h : Accepts c blocks s) :
    s.compensation.entries.Pairwise
        (fun d e => d.miningIdentity.identifier < e.miningIdentity.identifier) ∧
      (∀ miner, compensationStateLookup s.compensation ⟨.identity, miner⟩ =
        match namedWallet (historyTransactions blocks) miner with
        | some wallet => .ok ⟨.wallet, wallet⟩
        | none => .error .unresolved) ∧
      (∀ rest t, Accepts c (blocks ++ rest) t → ∀ miner wallet,
        compensationStateLookup s.compensation miner = .ok wallet →
        compensationStateLookup t.compensation miner = .ok wallet) ∧
      ∀ past bytes rest pre t post tx, blocks = past ++ bytes :: rest →
        blockTransactions bytes = pre ++ t :: post → transactionDecode t = .ok tx →
        tx.type = .issuance →
        ∃ r, issuanceDecode tx.record = .ok r ∧ IssuanceHonoured c past bytes pre t r := by
  obtain ⟨-, hreach⟩ := accepts_iff.mp h
  have hwell := hreach.preserves wellFormed_preserved (emptyState_wellFormed c)
  have htyped := hreach.preserves typed_preserved fun _ _ he => absurd he List.not_mem_nil
  refine ⟨?_, ?_, ?_, ?_⟩
  · exact hwell.sorted.imp fun hlt => BitVec.lt_def.mpr hlt
  · intro miner
    rw [htyped.lookup hwell, hreach.walletOf]
  · intro rest t ht miner wallet hlookup
    obtain ⟨-, hreach'⟩ := accepts_iff.mp ht
    exact (Reaches.preserves_from (mapsTo_preserved miner wallet) hreach hreach'
      ⟨hwell, hlookup⟩).2
  · intro past bytes rest pre t post tx hblocks hblock hdecode htype
    subst hblocks
    exact hreach.issuance_honoured hblock hdecode htype

end

section Sample

attribute [local instance] Sample.primitives

open Sample

theorem sample_compensation_honoured :
    (∃ s, Accepts context history s ∧ compensationStateLookup s.compensation alice.miningIdentity =
        .ok alice.wallet) ∧
      ∃ r, IssuanceHonoured context [genesis, empty, shares] rewards [] shareIssuance r := by
  obtain ⟨s, hs⟩ := accepts_history
  obtain ⟨-, hnamed, -, hhonoured⟩ := compensation_honoured hs
  have halice : namedWallet (historyTransactions history) alice.miningIdentity.identifier =
      some alice.wallet.identifier := by
    decide +kernel
  refine ⟨⟨s, hs, ?_⟩, ?_⟩
  · have hlookup := hnamed alice.miningIdentity.identifier
    rw [halice] at hlookup
    exact hlookup
  · obtain ⟨post, hblock⟩ : ∃ post, blockTransactions rewards = [] ++ shareIssuance :: post :=
      ⟨(blockTransactions rewards).tail, by decide +kernel⟩
    obtain ⟨tx, hdecode, htype⟩ : ∃ tx, transactionDecode shareIssuance = .ok tx ∧
        tx.type = .issuance := by
      have hsome : (transactionDecode shareIssuance).toOption.any (·.type = .issuance) = true := by
        decide +kernel
      cases hdecode : transactionDecode shareIssuance with
      | error status => simp [hdecode, Except.toOption] at hsome
      | ok tx => exact ⟨tx, rfl, by simpa [hdecode, Except.toOption] using hsome⟩
    obtain ⟨r, -, hr⟩ := hhonoured [genesis, empty, shares] rewards [repeats] [] shareIssuance post
      tx rfl hblock hdecode htype
    exact ⟨r, hr⟩

end Sample

end StnChain
