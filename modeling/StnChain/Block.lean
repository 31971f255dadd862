import StnChain.Transaction

/-!
# Blocks

A block is a header and a body of length-prefixed transactions (`stn_block.c`).
Structure is checked without hashing; integrity compares transaction
identifiers and the body commitment under a hash provider.  The block
identifier of `stn_chain.c` hashes the header alone.
-/

namespace StnChain

variable [Primitives]

/-- `stn_block`. -/
structure Block where
  header : BlockHeader
  body : Bytes

/-- `STN_BLOCK_MAX_SIZE`. -/
def blockMaxSize : ℕ := blockHeaderSize + blockMaxBody

/-- The loop of `stn_block_body_validate_structure`: `count` transactions are
left in `rest`. -/
def bodyWalk : ℕ → Bytes → Except DataStatus Unit
  | 0, rest => if rest = [] then .ok () else .error .length
  | count + 1, rest =>
      if rest.length < 4 then .error .length
      else
        let n := wireRead rest 0 4
        if n < txMinSize ∨ n > txMaxSize ∨ n > rest.length - 4 then .error .length
        else
          match transactionDecode ((rest.drop 4).take n) with
          | .error _ => .error .content
          | .ok _ => bodyWalk count (rest.drop (4 + n))

/-- `stn_block_body_validate_structure`. -/
def blockBodyValidateStructure (bytes : Bytes) (count : ℕ) : Except DataStatus Unit :=
  if count = 0 then
    if bytes.length = 0 then .ok () else .error .length
  else if count > blockMaxTransactions ∨ bytes.length > blockMaxBody ∨
      bytes.length < count * blockMinBody then .error .length
  else bodyWalk count bytes

/-- `stn_block_decode`. -/
def blockDecode (bytes : Bytes) : Except DataStatus Block :=
  if bytes.length < blockHeaderSize ∨ bytes.length > blockMaxSize then .error .length
  else
    match blockHeaderDecode (bytes.take blockHeaderSize) with
    | .error status => .error status
    | .ok header =>
        if bytes.length - blockHeaderSize ≠ header.bodyLength.toNat then .error .length
        else
          let body := bytes.drop blockHeaderSize
          match blockBodyValidateStructure body header.transactionCount.toNat with
          | .error status => .error status
          | .ok () => .ok ⟨header, body⟩

/-- `stn_block_validate_structure`. -/
def blockValidateStructure (bytes : Bytes) : Except DataStatus Unit :=
  match blockDecode bytes with
  | .error status => .error status
  | .ok _ => .ok ()

/-- The transactions the length prefixes of a body delimit. -/
def bodyTransactions : ℕ → Bytes → List Bytes
  | 0, _ => []
  | count + 1, rest =>
      let n := wireRead rest 0 4
      (rest.drop 4).take n :: bodyTransactions count (rest.drop (4 + n))

/-- The transactions of a block, in body order. -/
def Block.transactions (b : Block) : List Bytes :=
  bodyTransactions b.header.transactionCount.toNat b.body

/-- `stn_block_body_commitment`. -/
def blockBodyCommitment (body : Bytes) (count : ℕ) (provider : HashProvider) :
    Except DataStatus (Octets 32) :=
  match blockBodyValidateStructure body count with
  | .error status => .error status
  | .ok () => provider.digest (cString "STN-CHAIN:BLOCK:BODY:1") body

/-- The identifier loop of `stn_block_check_integrity`; `seen` are the
identifiers of the transactions before. -/
def distinctIds (provider : HashProvider) : List (Octets 32) → List Bytes → Except DataStatus Unit
  | _, [] => .ok ()
  | seen, bytes :: rest =>
      match transactionId bytes provider with
      | .error status => .error status
      | .ok id => if id ∈ seen then .error .duplicate else distinctIds provider (seen ++ [id]) rest

/-- `stn_block_check_integrity`. -/
def blockCheckIntegrity (bytes : Bytes) (provider : HashProvider) : Except DataStatus Unit :=
  match blockDecode bytes with
  | .error status => .error status
  | .ok b =>
      match distinctIds provider [] b.transactions with
      | .error status => .error status
      | .ok () =>
          match blockBodyCommitment b.body b.header.transactionCount.toNat provider with
          | .error status => .error status
          | .ok commitment =>
              if commitment = b.header.transactionCommitment then .ok ()
              else .error .commitment

/-- `stn_chain_block_id`. -/
def chainBlockId (bytes : Bytes) (provider : HashProvider) : Except DataStatus (Octets 32) :=
  match blockValidateStructure bytes with
  | .error status => .error status
  | .ok () => provider.digest (cString "STN-CHAIN:BLOCK:ID:1") (bytes.take blockHeaderSize)

/-! ## What structure and integrity establish -/

omit [Primitives] in
@[simp]
theorem length_bodyTransactions (count : ℕ) (rest : Bytes) :
    (bodyTransactions count rest).length = count := by
  induction count generalizing rest with
  | zero => rfl
  | succ count ih => simp [bodyTransactions, ih]

theorem decode_of_bodyWalk {count : ℕ} {rest : Bytes} (h : bodyWalk count rest = .ok ()) :
    ∀ t ∈ bodyTransactions count rest, ∃ tx, transactionDecode t = .ok tx := by
  induction count generalizing rest with
  | zero => simp [bodyTransactions]
  | succ count ih =>
      simp only [bodyWalk] at h
      split at h
      · simp at h
      split at h
      · simp at h
      split at h
      · simp at h
      next tx hdecode =>
      intro t ht
      rcases List.mem_cons.mp ht with rfl | ht
      · exact ⟨tx, hdecode⟩
      · exact ih h t ht

/-- Everything a decoded block's structure establishes. -/
theorem blockDecode_eq_ok {bytes : Bytes} {b : Block} (h : blockDecode bytes = .ok b) :
    168 ≤ bytes.length ∧ blockHeaderDecode (bytes.take 168) = .ok b.header ∧
      b.body = bytes.drop 168 ∧
      blockBodyValidateStructure b.body b.header.transactionCount.toNat = .ok () := by
  simp only [blockDecode] at h
  split at h
  · simp at h
  next hsize =>
  split at h
  · simp at h
  next header hheader =>
  split at h
  · simp at h
  split at h
  · simp at h
  next hbody =>
  obtain rfl := Except.ok.inj h
  simp only [blockHeaderSize] at hsize
  exact ⟨by omega, hheader, rfl, hbody⟩

theorem Block.decode_transactions {bytes : Bytes} {b : Block} (h : blockDecode bytes = .ok b) :
    ∀ t ∈ b.transactions, ∃ tx, transactionDecode t = .ok tx := by
  obtain ⟨-, -, -, hbody⟩ := blockDecode_eq_ok h
  simp only [blockBodyValidateStructure] at hbody
  split at hbody
  · next hcount => simp [Block.transactions, hcount, bodyTransactions]
  split at hbody
  · simp at hbody
  · exact decode_of_bodyWalk hbody

omit [Primitives] in
@[simp]
theorem Block.length_transactions (b : Block) :
    b.transactions.length = b.header.transactionCount.toNat :=
  length_bodyTransactions _ _

theorem Block.count_le {bytes : Bytes} {b : Block} (h : blockDecode bytes = .ok b) :
    b.header.transactionCount.toNat ≤ blockMaxTransactions := by
  obtain ⟨-, -, -, hbody⟩ := blockDecode_eq_ok h
  simp only [blockBodyValidateStructure] at hbody
  split at hbody
  · next hcount => simp [hcount]
  split at hbody
  · simp at hbody
  · next hlimits =>
      obtain ⟨hcount, -⟩ := not_or.mp hlimits
      exact Nat.le_of_not_gt hcount

private theorem nodup_of_distinctIds {provider : HashProvider} {seen : List (Octets 32)}
    {ts : List Bytes} (h : distinctIds provider seen ts = .ok ()) :
    ts.Nodup ∧ ∀ t ∈ ts, ∀ id, transactionId t provider = .ok id → id ∉ seen := by
  induction ts generalizing seen with
  | nil => simp
  | cons t ts ih =>
      simp only [distinctIds] at h
      split at h
      · simp at h
      next id hid =>
      split at h
      · simp at h
      next hfresh =>
      obtain ⟨hnodup, hrest⟩ := ih h
      constructor
      · refine List.nodup_cons.mpr ⟨fun hmem => ?_, hnodup⟩
        exact hrest t hmem id hid (by simp)
      · intro t' ht' id' hid' hseen
        rcases List.mem_cons.mp ht' with rfl | ht'
        · obtain rfl : id = id' := by simpa [hid] using hid'
          exact hfresh hseen
        · exact hrest t' ht' id' hid' (by simp [hseen])

/-- No transaction occurs twice in a block whose integrity holds. -/
theorem Block.nodup_transactions {bytes : Bytes} {b : Block} {provider : HashProvider}
    (hdecode : blockDecode bytes = .ok b) (h : blockCheckIntegrity bytes provider = .ok ()) :
    b.transactions.Nodup := by
  simp only [blockCheckIntegrity, hdecode] at h
  split at h
  · simp at h
  · next hids => exact (nodup_of_distinctIds hids).1

/-! ## Encoding -/

/-- The body that carries some transactions. -/
def bodyBytes (ts : List Bytes) : Bytes :=
  ts.flatMap fun t => wireWrite 4 t.length ++ t

/-- `stn_block_body_encode`. -/
def blockBodyEncode (ts : List Bytes) (capacity : ℕ) : Except DataStatus Bytes :=
  if ts.length > blockMaxTransactions then .error .length
  else
    match ts.forM fun t => (transactionDecode t).map fun _ => () with
    | .error status => .error status
    | .ok () => if capacity < (bodyBytes ts).length then .error .capacity else .ok (bodyBytes ts)

/-- `stn_block_encode`; the body is as long as the header says. -/
def blockEncode (b : Block) (capacity : ℕ) : Except DataStatus Bytes :=
  match headerValid b.header with
  | .error status => .error status
  | .ok () =>
      let body := b.body.take b.header.bodyLength.toNat
      match blockBodyValidateStructure body b.header.transactionCount.toNat with
      | .error status => .error status
      | .ok () =>
          if capacity < blockHeaderSize + b.header.bodyLength.toNat then .error .capacity
          else .ok (blockHeaderBytes b.header ++ body)

omit [Primitives] in
theorem bodyBytes_cons (t : Bytes) (ts : List Bytes) :
    bodyBytes (t :: ts) = wireWrite 4 t.length ++ t ++ bodyBytes ts := rfl

omit [Primitives] in
theorem length_bodyBytes (ts : List Bytes) :
    (bodyBytes ts).length = (ts.map fun t => 4 + t.length).sum := by
  induction ts with
  | nil => rfl
  | cons t ts ih =>
      rw [bodyBytes_cons, List.length_append, List.length_append, ih, length_wireWrite,
        List.map_cons, List.sum_cons]

omit [Primitives] in
theorem bodyBytes_append (ts rest : List Bytes) :
    bodyBytes (ts ++ rest) = bodyBytes ts ++ bodyBytes rest := by
  induction ts with
  | nil => rfl
  | cons t ts ih => simp only [List.cons_append, bodyBytes_cons, ih, List.append_assoc]

/-- A transaction that a body can carry. -/
structure Carried (t : Bytes) : Prop where
  decode : ∃ tx, transactionDecode t = .ok tx
  size : txMinSize ≤ t.length

theorem Carried.size_le {t : Bytes} (h : Carried t) : t.length ≤ txMaxSize := by
  obtain ⟨tx, hdecode⟩ := h.decode
  simp only [transactionDecode] at hdecode
  split at hdecode
  · simp at hdecode
  next hsize => omega

omit [Primitives] in
theorem wireRead_bodyBytes_cons {t : Bytes} (h : t.length ≤ txMaxSize) (ts : List Bytes) :
    wireRead (bodyBytes (t :: ts)) 0 4 = t.length := by
  rw [bodyBytes_cons, List.append_assoc, wireRead_append_left (by simp)]
  apply wireRead_wireWrite
  simp only [txMaxSize] at h
  omega

omit [Primitives] in
theorem drop_bodyBytes_cons (t : Bytes) (ts : List Bytes) :
    (bodyBytes (t :: ts)).drop (4 + t.length) = bodyBytes ts := by
  rw [bodyBytes_cons, List.drop_left' (by simp)]

omit [Primitives] in
theorem take_drop_bodyBytes_cons (t : Bytes) (ts : List Bytes) :
    ((bodyBytes (t :: ts)).drop 4).take t.length = t := by
  rw [bodyBytes_cons, List.append_assoc, List.drop_left' (length_wireWrite 4 _), List.take_left]

/-- A body is walked transaction by transaction. -/
theorem bodyWalk_bytes {ts : List Bytes} (h : ∀ t ∈ ts, Carried t) :
    bodyWalk ts.length (bodyBytes ts) = .ok () := by
  induction ts with
  | nil => rfl
  | cons t ts ih =>
      have ht := h t List.mem_cons_self
      have hmax := ht.size_le
      have hmin := ht.size
      obtain ⟨tx, hdecode⟩ := ht.decode
      have hlen : (bodyBytes (t :: ts)).length = 4 + t.length + (bodyBytes ts).length := by
        simp [bodyBytes_cons, Nat.add_assoc]
      have hprefix : ¬ (bodyBytes (t :: ts)).length < 4 := by
        omega
      have hsize : ¬ (t.length < txMinSize ∨ t.length > txMaxSize ∨
          t.length > (bodyBytes (t :: ts)).length - 4) := by
        omega
      simp only [List.length_cons, bodyWalk, if_neg hprefix, wireRead_bodyBytes_cons hmax,
        if_neg hsize, take_drop_bodyBytes_cons, hdecode, drop_bodyBytes_cons]
      exact ih fun t' ht' => h t' (List.mem_cons_of_mem _ ht')

theorem bodyTransactions_bytes {ts : List Bytes} (h : ∀ t ∈ ts, Carried t) :
    bodyTransactions ts.length (bodyBytes ts) = ts := by
  induction ts with
  | nil => rfl
  | cons t ts ih =>
      have hmax := (h t List.mem_cons_self).size_le
      simp only [List.length_cons, bodyTransactions, wireRead_bodyBytes_cons hmax,
        take_drop_bodyBytes_cons, drop_bodyBytes_cons]
      rw [ih fun t' ht' => h t' (List.mem_cons_of_mem _ ht')]

theorem length_bodyBytes_le {ts : List Bytes} (h : ∀ t ∈ ts, Carried t) :
    ts.length * blockMinBody ≤ (bodyBytes ts).length ∧
      (bodyBytes ts).length ≤ ts.length * (4 + txMaxSize) := by
  induction ts with
  | nil => simp [bodyBytes]
  | cons t ts ih =>
      have hmax := (h t List.mem_cons_self).size_le
      have hmin := (h t List.mem_cons_self).size
      obtain ⟨hlow, hhigh⟩ := ih fun t' ht' => h t' (List.mem_cons_of_mem _ ht')
      have hlen : (bodyBytes (t :: ts)).length = 4 + t.length + (bodyBytes ts).length := by
        simp [bodyBytes_cons, Nat.add_assoc]
      simp only [hlen, List.length_cons, Nat.succ_mul, blockMinBody] at hlow ⊢
      omega

theorem blockBodyValidateStructure_bytes {ts : List Bytes} (h : ∀ t ∈ ts, Carried t)
    (hcount : ts.length ≤ blockMaxTransactions) :
    blockBodyValidateStructure (bodyBytes ts) ts.length = .ok () := by
  obtain ⟨hlow, hhigh⟩ := length_bodyBytes_le h
  simp only [blockBodyValidateStructure]
  split
  · next hzero =>
      obtain rfl := List.length_eq_zero_iff.mp hzero
      rfl
  · have hbody : (bodyBytes ts).length ≤ blockMaxBody :=
      hhigh.trans (Nat.mul_le_mul_right _ hcount)
    rw [if_neg (by omega)]
    exact bodyWalk_bytes h

/-- A block is read back from its header and its transactions. -/
theorem blockDecode_bytes {h : BlockHeader} {ts : List Bytes} (hvalid : headerValid h = .ok ())
    (hts : ∀ t ∈ ts, Carried t) (hcount : h.transactionCount.toNat = ts.length)
    (hbody : h.bodyLength.toNat = (bodyBytes ts).length) (hmax : ts.length ≤ blockMaxTransactions) :
    blockDecode (blockHeaderBytes h ++ bodyBytes ts) = .ok ⟨h, bodyBytes ts⟩ := by
  obtain ⟨-, hhigh⟩ := length_bodyBytes_le hts
  have hbodyMax : (bodyBytes ts).length ≤ blockMaxBody :=
    hhigh.trans (Nat.mul_le_mul_right _ hmax)
  have hsize : ¬ ((blockHeaderBytes h ++ bodyBytes ts).length < blockHeaderSize ∨
      (blockHeaderBytes h ++ bodyBytes ts).length > blockMaxSize) := by
    simp only [List.length_append, length_blockHeaderBytes, blockMaxSize]
    omega
  have htake : (blockHeaderBytes h ++ bodyBytes ts).take blockHeaderSize = blockHeaderBytes h := by
    rw [List.take_append_of_le_length (by simp), List.take_of_length_le (by simp)]
  have hdrop : (blockHeaderBytes h ++ bodyBytes ts).drop blockHeaderSize = bodyBytes ts := by
    rw [← length_blockHeaderBytes h, List.drop_left]
  have hrest : (blockHeaderBytes h ++ bodyBytes ts).length - blockHeaderSize =
      h.bodyLength.toNat := by
    simp [hbody]
  simp only [blockDecode, if_neg hsize, htake, blockHeaderDecode_bytes hvalid, hrest, ne_eq,
    not_true_eq_false, if_false, hdrop, hcount, blockBodyValidateStructure_bytes hts hmax]

end StnChain
