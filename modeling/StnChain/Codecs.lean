import StnChain.Chain.History
import StnChain.Contract.Encoding

/-!
# Round trips of the wire formats

What a decoder accepts is what the encoder writes: for contracts and contract
transactions, for the transaction envelope of `stn_transaction.c`, for the block header,
and for the block with its body of length-prefixed transactions (`stn_block.c`).  The
body's framing is the one its header declares, and every transaction that can be encoded
fits a body.
-/

namespace StnChain

section

variable [Primitives]

/-! ## Contracts -/

/-- Decoding and encoding of contract transactions invert each other, and so do those of
contracts once the borrowed participants are materialised. -/
theorem contract_codec :
    (∀ tx capacity bytes, contractTransactionEncode tx capacity = .ok bytes →
      contractTransactionDecode bytes = .ok tx.borrowed) ∧
    (∀ bytes tx capacity, contractTransactionDecode bytes = .ok tx → bytes.length ≤ capacity →
      contractTransactionEncode tx capacity = .ok bytes) ∧
    (∀ contract capacity bytes, contract.Backed → contractEncode contract capacity = .ok bytes →
      ∃ decoded ps, contractDecode bytes = .ok decoded ∧
        contractParticipants decoded = .ok ps ∧
        { decoded with participants := some ps }.SameValue contract) ∧
    (∀ bytes decoded capacity, contractDecode bytes = .ok decoded → bytes.length ≤ capacity →
      ∃ ps, contractParticipants decoded = .ok ps ∧
        contractEncode { decoded with participants := some ps } capacity = .ok bytes) := by
  refine ⟨?_, ?_, ?_, ?_⟩
  · intro tx capacity bytes hencode
    obtain ⟨hchecked, rfl, -⟩ := contractTransactionEncode_eq_ok_iff.mp hencode
    exact contractTransactionDecode_bytes hchecked
  · intro bytes tx capacity hdecode hcapacity
    obtain ⟨hchecked, hbytes⟩ := contractTransactionDecode_eq_ok hdecode
    exact contractTransactionEncode_eq_ok_iff.mpr ⟨hchecked, hbytes, hcapacity⟩
  · intro contract capacity bytes hbacked hencode
    exact contractEncode_round_trip hbacked hencode
  · intro bytes decoded capacity hdecode hcapacity
    exact contractDecode_round_trip hdecode hcapacity

/-! ## Transactions -/

section Transactions

variable {tx : Transaction} {bytes record : Bytes} {type : TransactionType} {capacity : ℕ}

omit [Primitives] in
theorem recordDecode_length {r : Record} (h : recordDecode record = .ok r) :
    recordOverhead ≤ record.length ∧ record.length ≤ recordOverhead + recordMaxPayload := by
  simp only [recordDecode] at h
  split at h
  · cases h
  next hshort =>
  split at h
  · cases h
  next hlong =>
  exact ⟨not_lt.mp hshort, not_lt.mp hlong⟩

theorem contractTransactionDecode_length {r : ContractTransaction}
    (h : contractTransactionDecode record = .ok r) :
    contractTxHeaderSize ≤ record.length ∧ record.length ≤ contractTxMaxSize := by
  simp only [contractTransactionDecode] at h
  split at h
  · cases h
  next hlength =>
  obtain ⟨hshort, hlong⟩ := not_or.mp hlength
  exact ⟨not_lt.mp hshort, not_lt.mp hlong⟩

omit [Primitives] in
theorem shareDecode_length {r : ShareEvidence} (h : shareDecode record = .ok r) :
    record.length = shareCanonicalSize := by
  simp only [shareDecode] at h
  split at h
  · cases h
  next hlength => exact not_not.mp hlength

omit [Primitives] in
theorem compensationDestinationDecode_length {r : CompensationDestination}
    (h : compensationDestinationDecode record = .ok r) :
    record.length = compensationDestinationSize := by
  simp only [compensationDestinationDecode] at h
  split at h
  · cases h
  next hlength => exact not_not.mp hlength

omit [Primitives] in
theorem transferEnvelopeDecode_length {r : TransferEnvelope}
    (h : transferEnvelopeDecode record = .ok r) :
    record.length = transferEnvelopeCanonicalSize := by
  simp only [transferEnvelopeDecode] at h
  split at h
  · cases h
  next hlength => exact not_not.mp hlength

omit [Primitives] in
/-- A record is one of its type only if the type's decoder accepts it. -/
theorem recordMatchesType_eq_ok {accepted : Bool}
    (h : (if accepted then .ok () else .error .content : Except DataStatus Unit) = .ok ()) :
    accepted = true := by
  by_contra hrefused
  simp [hrefused] at h

omit [Primitives] in
/-- A lifecycle record is one of its type only if it has the type's size. -/
theorem lifecycleSize_eq_ok {n : ℕ}
    (h : (if record.length = n then .ok () else .error .length : Except DataStatus Unit) = .ok ()) :
    record.length = n := by
  by_contra hother
  simp [hother] at h

/-- The sizes of the records a type admits. -/
theorem recordMatchesType_size (h : recordMatchesType type record = .ok ()) :
    txMinSize ≤ txHeaderSize + record.length ∧ txHeaderSize + record.length ≤ txMaxSize := by
  have hmin : txMinSize = 77 := rfl
  have hmax : txMaxSize = 66881 := rfl
  have hheader : txHeaderSize = 12 := rfl
  cases type with
  | publication =>
      obtain ⟨r, hr⟩ := exists_ok_of_toBool (recordMatchesType_eq_ok h)
      have hlength := recordDecode_length hr
      simp only [recordOverhead, recordMaxPayload] at hlength
      omega
  | contractAction =>
      obtain ⟨r, hr⟩ := exists_ok_of_toBool (recordMatchesType_eq_ok h)
      have hlength := contractTransactionDecode_length hr
      have htx : contractTxMaxSize = 66869 := rfl
      have hfirst : contractTxHeaderSize = 116 := rfl
      omega
  | shareEvidence =>
      have hshare := recordMatchesType_eq_ok h
      rw [Bool.or_eq_true, decide_eq_true_eq] at hshare
      rcases hshare with hold | hdecoded
      · omega
      · obtain ⟨r, hr⟩ := exists_ok_of_toBool hdecoded
        have hlength := shareDecode_length hr
        have hsize : shareCanonicalSize = 273 := rfl
        omega
  | compensationDestination =>
      obtain ⟨r, hr⟩ := exists_ok_of_toBool (recordMatchesType_eq_ok h)
      have hlength := compensationDestinationDecode_length hr
      have hsize : compensationDestinationSize = 65 := rfl
      omega
  | issuance =>
      obtain ⟨r, hr⟩ := exists_ok_of_toBool (recordMatchesType_eq_ok h)
      obtain ⟨hlength, -⟩ := issuanceDecode_eq_ok hr
      omega
  | transfer =>
      obtain ⟨r, hr⟩ := exists_ok_of_toBool (recordMatchesType_eq_ok h)
      have hlength := transferEnvelopeDecode_length hr
      have hsize : transferEnvelopeCanonicalSize = 202 := rfl
      omega
  | blockCompensationEvidence =>
      have hevidence := recordMatchesType_eq_ok h
      simp only [blockCompensationStructure, blockCompensationCanonicalSize, Bool.and_eq_true,
        decide_eq_true_eq] at hevidence
      obtain ⟨⟨⟨hsize, -⟩, -⟩, -⟩ := hevidence
      have hlength := of_decide_eq_true hsize
      omega
  | authorityGrant =>
      have hlength : record.length = 194 := lifecycleSize_eq_ok h
      omega
  | authorityRevoke | identityRotate =>
      have hlength : record.length = 129 := lifecycleSize_eq_ok h
      omega

/-- The bounds that encoding restates for a type are those of its records. -/
theorem recordMatchesType_bounds (h : recordMatchesType type record = .ok ()) :
    ¬(type = .publication ∧ (record.length < recordOverhead ∨
        record.length > recordOverhead + recordMaxPayload)) ∧
      ¬(type = .contractAction ∧ record.length > txContractActionMaxSize) := by
  constructor
  · rintro ⟨rfl, hlength⟩
    obtain ⟨r, hr⟩ := exists_ok_of_toBool (recordMatchesType_eq_ok h)
    have hbounds := recordDecode_length hr
    omega
  · rintro ⟨-, hlength⟩
    have hsize := (recordMatchesType_size h).2
    have hmax : txMaxSize = txHeaderSize + txContractActionMaxSize := rfl
    omega

/-- Encoding a transaction writes the octets that decode to it. -/
theorem transactionEncode_eq_ok_iff :
    transactionEncode tx capacity = .ok bytes ↔
      transactionDecode bytes = .ok tx ∧ bytes.length ≤ capacity := by
  constructor
  · intro h
    simp only [transactionEncode] at h
    split at h
    · cases h
    next hversion =>
    split at h
    · cases h
    split at h
    · cases h
    split at h
    · cases h
    next hrecord =>
    split at h
    · cases h
    next hcapacity =>
    obtain rfl := Except.ok.inj h
    constructor
    · rw [transactionDecode_bytes (recordMatchesType_size hrecord).2 hrecord,
        ← not_not.mp hversion]
    · rw [length_transactionBytes]
      omega
  · rintro ⟨hdecode, hcapacity⟩
    obtain ⟨hversion, hrecord, hbytes⟩ := transactionDecode_eq_ok hdecode
    have hwritten : bytes = transactionBytes tx.type tx.record := hbytes
    have hroom : ¬ capacity < txHeaderSize + tx.record.length := by
      rw [hwritten, length_transactionBytes] at hcapacity
      omega
    obtain ⟨hpublication, haction⟩ := recordMatchesType_bounds hrecord
    simp only [transactionEncode, if_neg (not_not.mpr hversion), if_neg hpublication,
      if_neg haction, hrecord, if_neg hroom, hwritten]

/-- The octets a transaction is decoded from have the size of a body's transaction. -/
theorem transactionDecode_size (h : transactionDecode bytes = .ok tx) :
    txMinSize ≤ bytes.length ∧ bytes.length ≤ txMaxSize := by
  obtain ⟨-, hrecord, hbytes⟩ := transactionDecode_eq_ok h
  have hlength : bytes.length = txHeaderSize + tx.record.length := by
    rw [hbytes]
    exact length_transactionBytes tx.type tx.record
  rw [hlength]
  exact recordMatchesType_size hrecord

/-- Whatever decodes can be carried by a body. -/
theorem Carried.of_decode (h : transactionDecode bytes = .ok tx) : Carried bytes :=
  ⟨⟨tx, h⟩, (transactionDecode_size h).1⟩

/-- Decoding and encoding of transactions invert each other, and every transaction that can
be encoded has a size the block body admits. -/
theorem transaction_codec :
    (∀ bytes, (∃ tx, transactionDecode bytes = .ok tx) ↔
      ∃ tx capacity, transactionEncode tx capacity = .ok bytes) ∧
    (∀ tx capacity bytes, transactionEncode tx capacity = .ok bytes →
      transactionDecode bytes = .ok tx ∧ txMinSize ≤ bytes.length ∧
        bytes.length ≤ txMaxSize) ∧
    (∀ bytes tx capacity, transactionDecode bytes = .ok tx → bytes.length ≤ capacity →
      transactionEncode tx capacity = .ok bytes) := by
  refine ⟨?_, ?_, ?_⟩
  · intro bytes
    constructor
    · rintro ⟨tx, hdecode⟩
      exact ⟨tx, bytes.length, transactionEncode_eq_ok_iff.mpr ⟨hdecode, le_rfl⟩⟩
    · rintro ⟨tx, capacity, hencode⟩
      exact ⟨tx, (transactionEncode_eq_ok_iff.mp hencode).1⟩
  · intro tx capacity bytes hencode
    have hdecode := (transactionEncode_eq_ok_iff.mp hencode).1
    exact ⟨hdecode, transactionDecode_size hdecode⟩
  · intro bytes tx capacity hdecode hcapacity
    exact transactionEncode_eq_ok_iff.mpr ⟨hdecode, hcapacity⟩

end Transactions

/-! ## Block headers -/

omit [Primitives] in
/-- A header is read from the octets it is written as. -/
theorem blockHeaderDecode_eq_ok {bytes : Bytes} {h : BlockHeader}
    (hdecode : blockHeaderDecode bytes = .ok h) :
    headerValid h = .ok () ∧ blockHeaderBytes h = bytes := by
  simp only [blockHeaderDecode] at hdecode
  split at hdecode
  · cases hdecode
  next hlength =>
  split at hdecode
  · cases hdecode
  next hmagic =>
  split at hdecode
  · cases hdecode
  next hvalid =>
  obtain rfl := Except.ok.inj hdecode
  refine ⟨hvalid, ?_⟩
  have hlen : bytes.length = 168 := not_not.mp hlength
  have hhead : ([0x53, 0x54, 0x4e, 0x42] : Bytes) = BigEndian.field bytes 0 4 := by
    rw [← not_not.mp hmagic]
    simp [BigEndian.field]
  simp only [blockHeaderBytes, toNat_ofNat_wireRead_two, toNat_ofNat_wireRead_four,
    toNat_ofNat_wireRead_eight]
  rw [wireWrite_wireRead (by omega), wireWrite_wireRead (by omega), wireWrite_wireRead (by omega),
    wireWrite_wireRead (by omega), wireWrite_wireRead (by omega), wireWrite_wireRead (by omega),
    wireWrite_wireRead (by omega), octetBytes_octetsAt (by omega), octetBytes_octetsAt (by omega),
    octetBytes_octetsAt (by omega), octetBytes_octetsAt (by omega), hhead]
  repeat rw [BigEndian.field_append_field]
  exact BigEndian.field_zero_length hlen

/-! ## Bodies -/

theorem bodyWalk_of_validate {bytes : Bytes} {count : ℕ}
    (h : blockBodyValidateStructure bytes count = .ok ()) : bodyWalk count bytes = .ok () := by
  simp only [blockBodyValidateStructure] at h
  split at h
  · next hcount =>
      split at h
      · next hlength => simp [hcount, bodyWalk, List.length_eq_zero_iff.mp hlength]
      · simp at h
  split at h
  · simp at h
  · exact h

/-- The limits of a body whose structure holds. -/
theorem limits_of_validate {bytes : Bytes} {count : ℕ}
    (h : blockBodyValidateStructure bytes count = .ok ()) :
    count ≤ blockMaxTransactions ∧ bytes.length ≤ blockMaxBody := by
  simp only [blockBodyValidateStructure] at h
  split at h
  · next hcount =>
      split at h
      · next hlength => simp [hcount, hlength]
      · simp at h
  split at h
  · simp at h
  · next hlimits => omega

/-- A body that is walked to its end is the framing of the transactions it delimits. -/
theorem bodyWalk_eq_ok {count : ℕ} {rest : Bytes} (h : bodyWalk count rest = .ok ()) :
    (∀ t ∈ bodyTransactions count rest, Carried t) ∧
      bodyBytes (bodyTransactions count rest) = rest := by
  induction count generalizing rest with
  | zero =>
      simp only [bodyWalk] at h
      split at h
      · next hend =>
          simp [bodyTransactions, bodyBytes, hend]
      · cases h
  | succ count ih =>
      simp only [bodyWalk] at h
      split at h
      · cases h
      next hprefix =>
      split at h
      · cases h
      next hsize =>
      split at h
      · cases h
      next tx hdecode =>
      obtain ⟨hcarried, hbytes⟩ := ih h
      have hlength : ((rest.drop 4).take (wireRead rest 0 4)).length = wireRead rest 0 4 := by
        rw [List.length_take, List.length_drop]
        omega
      have hwritten : wireWrite 4 (wireRead rest 0 4) = rest.take 4 := by
        rw [wireWrite_wireRead (by omega)]
        simp [BigEndian.field]
      constructor
      · intro t ht
        rcases List.mem_cons.mp ht with rfl | ht
        · exact .of_decode hdecode
        · exact hcarried t ht
      · simp only [bodyTransactions]
        rw [bodyBytes_cons, hlength, hbytes, hwritten, List.append_assoc, ← List.drop_drop,
          List.take_append_drop, List.take_append_drop]

/-- Octets behind the transactions of a body are not read. -/
theorem bodyTransactions_append {count : ℕ} {rest : Bytes} (h : bodyWalk count rest = .ok ())
    (behind : Bytes) :
    bodyTransactions count (rest ++ behind) = bodyTransactions count rest := by
  induction count generalizing rest with
  | zero => rfl
  | succ count ih =>
      simp only [bodyWalk] at h
      split at h
      · cases h
      next hprefix =>
      split at h
      · cases h
      next hsize =>
      split at h
      · cases h
      have hread : wireRead (rest ++ behind) 0 4 = wireRead rest 0 4 :=
        wireRead_append_left (by omega)
      have hfirst : 4 + wireRead rest 0 4 ≤ rest.length := by
        omega
      simp only [bodyTransactions, hread]
      rw [List.drop_append_of_le_length (by omega), List.drop_append_of_le_length hfirst,
        List.take_append_of_le_length (by rw [List.length_drop]; omega), ih h]

/-! ## Blocks -/

section Blocks

variable {b : Block} {bytes : Bytes} {capacity : ℕ}

/-- The framing of a block's body is the one its header declares. -/
structure Block.Framed (b : Block) : Prop where
  length : b.body.length = b.header.bodyLength.toNat
  count : b.transactions.length = b.header.transactionCount.toNat
  limit : b.transactions.length ≤ blockMaxTransactions
  framing : bodyBytes b.transactions = b.body
  decode : ∀ t ∈ b.transactions, ∃ tx, transactionDecode t = .ok tx
  sizes : ∀ t ∈ b.transactions, txMinSize ≤ t.length ∧ t.length ≤ txMaxSize

/-- A block whose body is as long as its header declares is encoded to the octets that
decode to it. -/
theorem blockEncode_eq_ok_iff (hlength : b.body.length = b.header.bodyLength.toNat) :
    blockEncode b capacity = .ok bytes ↔ blockDecode bytes = .ok b ∧ bytes.length ≤ capacity := by
  have htake : b.body.take b.header.bodyLength.toNat = b.body := by
    rw [← hlength, List.take_length]
  constructor
  · intro h
    simp only [blockEncode, htake] at h
    split at h
    · cases h
    next hvalid =>
    split at h
    · cases h
    next hbody =>
    split at h
    · cases h
    next hcapacity =>
    obtain rfl := Except.ok.inj h
    obtain ⟨hcarried, hbytes⟩ := bodyWalk_eq_ok (bodyWalk_of_validate hbody)
    have hcount := length_bodyTransactions b.header.transactionCount.toNat b.body
    constructor
    · have hdecode := blockDecode_bytes hvalid hcarried hcount.symm (by rw [hbytes, hlength])
        (hcount.trans_le (limits_of_validate hbody).1)
      rwa [hbytes] at hdecode
    · rw [List.length_append, length_blockHeaderBytes, hlength]
      omega
  · rintro ⟨hdecode, hcapacity⟩
    obtain ⟨hlong, hheader, hrest, hbody⟩ := blockDecode_eq_ok hdecode
    obtain ⟨hvalid, hwritten⟩ := blockHeaderDecode_eq_ok hheader
    have hsplit : bytes = blockHeaderBytes b.header ++ b.body := by
      rw [hwritten, hrest, List.take_append_drop]
    have hroom : ¬ capacity < blockHeaderSize + b.header.bodyLength.toNat := by
      rw [hsplit, List.length_append, length_blockHeaderBytes, hlength] at hcapacity
      omega
    simp only [blockEncode, htake, hvalid, hbody, if_neg hroom, ← hsplit]

/-- Encoding reads as much of the body as the header declares. -/
theorem blockEncode_declared (b : Block) (capacity : ℕ) :
    blockEncode ⟨b.header, b.body.take b.header.bodyLength.toNat⟩ capacity =
      blockEncode b capacity := by
  simp only [blockEncode, List.take_take, Nat.min_self]

theorem Block.framed (h : blockDecode bytes = .ok b) : b.Framed := by
  have hlength : b.body.length = b.header.bodyLength.toNat := by
    simp only [blockDecode] at h
    split at h
    · cases h
    split at h
    · cases h
    split at h
    · cases h
    next hlength =>
    split at h
    · cases h
    obtain rfl := Except.ok.inj h
    rw [← not_not.mp hlength, List.length_drop]
  obtain ⟨-, -, -, hbody⟩ := blockDecode_eq_ok h
  obtain ⟨hcarried, hbytes⟩ := bodyWalk_eq_ok (bodyWalk_of_validate hbody)
  constructor
  · exact hlength
  · exact b.length_transactions
  · rw [b.length_transactions]
    exact (limits_of_validate hbody).1
  · exact hbytes
  · exact fun t ht => (hcarried t ht).decode
  · exact fun t ht => ⟨(hcarried t ht).size, (hcarried t ht).size_le⟩

/-- Decoding and encoding of blocks invert each other, and the count and the length a
decoded header declares are those of its body's framing. -/
theorem block_codec :
    (∀ b capacity bytes, b.header.bodyLength.toNat ≤ b.body.length →
      blockEncode b capacity = .ok bytes →
        ∃ decoded, blockDecode bytes = .ok decoded ∧ decoded.header = b.header ∧
          decoded.body = b.body.take b.header.bodyLength.toNat ∧
          decoded.transactions = b.transactions) ∧
    (∀ bytes b capacity, blockDecode bytes = .ok b → bytes.length ≤ capacity →
      blockEncode b capacity = .ok bytes) ∧
    (∀ bytes b, blockDecode bytes = .ok b → b.Framed) := by
  refine ⟨?_, ?_, fun bytes b => Block.framed⟩
  · intro b capacity bytes hbacked hencode
    rw [← blockEncode_declared] at hencode
    have hdecode := ((blockEncode_eq_ok_iff (by simpa using hbacked)).mp hencode).1
    obtain ⟨-, -, -, hbody⟩ := blockDecode_eq_ok hdecode
    have hread := bodyTransactions_append (bodyWalk_of_validate hbody)
      (b.body.drop b.header.bodyLength.toNat)
    dsimp only at hread
    rw [List.take_append_drop] at hread
    exact ⟨_, hdecode, rfl, rfl, hread.symm⟩
  · intro bytes b capacity hdecode hcapacity
    exact (blockEncode_eq_ok_iff (Block.framed hdecode).length).mpr ⟨hdecode, hcapacity⟩

end Blocks

end

section Sample

open Sample

section

attribute [local instance] Sample.createPrimitives

/-- The creation of a contract is encoded again from what it decodes to. -/
theorem sample_contract_codec :
    contractTransactionEncode createAction createTransaction.record.length =
        .ok createTransaction.record ∧
      ∃ ps, contractParticipants draftContract = .ok ps ∧
        contractEncode { draftContract with participants := some ps } draft.length = .ok draft :=
  ⟨contract_codec.2.1 _ _ _ sample_create_decodes le_rfl,
    contract_codec.2.2.2 _ _ _ (by decide +kernel) le_rfl⟩

/-- So is the transaction that carries it. -/
theorem sample_transaction_codec : ∃ bytes,
    transactionEncode createTransaction txMaxSize = .ok bytes ∧
      transactionDecode bytes = .ok createTransaction := by
  obtain ⟨bytes, hencode⟩ : ∃ bytes, transactionEncode createTransaction txMaxSize = .ok bytes :=
    exists_ok_of_toBool (by decide +kernel)
  exact ⟨bytes, hencode, (transaction_codec.2.1 _ _ _ hencode).1⟩

end

attribute [local instance] Sample.primitives

/-- A genesis block is encoded again from what it decodes to. -/
theorem sample_block_codec : ∃ b, blockDecode genesis = .ok b ∧
    blockEncode b genesis.length = .ok genesis := by
  obtain ⟨b, hdecode⟩ : ∃ b, blockDecode genesis = .ok b :=
    exists_ok_of_toBool (by decide +kernel)
  exact ⟨b, hdecode, block_codec.2.1 _ _ _ hdecode le_rfl⟩

end Sample

end StnChain
