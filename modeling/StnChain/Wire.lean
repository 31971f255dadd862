import StnChain.Support.BigEndian

/-!
# Octets, statuses and external primitives

The vocabulary every component shares.  A buffer `(pointer, length)` of the
source is a `Bytes`; a fixed array `uint8_t[n]` is an `Octets n`, the number
its octets denote most significant first, so that `memcmp` on arrays of one
width is the unsigned order and `memcpy` is identity.  `stn_wire_read` and
`stn_wire_write` are `wireRead` and `wireWrite`.

SHA-256 and the Ed25519 signature equation are computed by code this
development does not embed; `Primitives` stands for both.  Null arguments and
failing allocations are not modelled: every buffer is present and every
allocation succeeds.
-/

namespace StnChain

/-- A byte span. -/
abbrev Bytes := List UInt8

/-- A fixed array `uint8_t[n]`, ordered as `memcmp` orders it. -/
abbrev Octets (n : ℕ) := BitVec (8 * n)

/-- The test of a digest against a list of digests. -/
instance : LawfulBEq (Octets 32) :=
  inferInstance

/-- The test of a signed statement against a list of such. -/
instance : LawfulBEq (Bytes × Octets 32 × Octets 64) :=
  inferInstance

/-- `stn_wire_read(p + off, n)`. -/
def wireRead (p : Bytes) (off n : ℕ) : ℕ :=
  BigEndian.read (BigEndian.field p off n)

/-- `stn_wire_write` of `v` into `n` octets. -/
def wireWrite (n v : ℕ) : Bytes :=
  BigEndian.write n v

/-- `memcpy` of `n` octets from `p + off` into a fixed array. -/
def octetsAt (p : Bytes) (off n : ℕ) : Octets n :=
  BitVec.ofNat (8 * n) (wireRead p off n)

/-- `memcpy` of a fixed array into a buffer. -/
def octetBytes {n : ℕ} (x : Octets n) : Bytes :=
  wireWrite n x.toNat

/-- The octet `p[off]`. -/
def byteAt (p : Bytes) (off : ℕ) : UInt8 :=
  p.getD off 0

/-- The characters of a string literal, without a terminator. -/
def ascii (s : String) : Bytes :=
  s.toList.map fun c => UInt8.ofNat c.toNat

/-- A string literal as `sizeof` counts it: its characters and the NUL. -/
def cString (s : String) : Bytes :=
  ascii s ++ [0]

/-- `stn_data_status` other than `STN_DATA_OK`. -/
inductive DataStatus
  | argument | length | magic | version | type | content | capacity
  | unresolved | providerError | duplicate | commitment | target | work
  | overflow
  deriving DecidableEq, Repr

/-- `stn_hash_fn`: the digest of a domain followed by a span. -/
abbrev HashFunction := Bytes → Bytes → Except DataStatus (Octets 32)

/-- `stn_hash_provider`; a provider without a function resolves nothing. -/
structure HashProvider where
  hash : Option HashFunction

/-- The primitives whose code is outside this development. -/
class Primitives where
  /-- `stn_sha256`. -/
  sha256 : HashFunction
  /-- `stn_ed25519_verify(statement, key, signature) == 0`. -/
  ed25519Verify : Bytes → Octets 32 → Octets 64 → Bool

/-- A provider call as the identifier routines make it: a missing function and
an unresolved digest are unresolved, every other failure is the provider's. -/
def HashProvider.digest (provider : HashProvider) (domain bytes : Bytes) :
    Except DataStatus (Octets 32) :=
  match provider.hash with
  | none => .error .unresolved
  | some hash =>
      match hash domain bytes with
      | .ok digest => .ok digest
      | .error .unresolved => .error .unresolved
      | .error _ => .error .providerError

/-- A provider that answers every call. -/
def HashProvider.Total (provider : HashProvider) : Prop :=
  ∃ hash, provider.hash = some hash ∧ ∀ domain bytes, ∃ digest, hash domain bytes = .ok digest

theorem HashProvider.Total.digest {provider : HashProvider} (h : provider.Total)
    (domain bytes : Bytes) : ∃ digest, provider.digest domain bytes = .ok digest := by
  obtain ⟨hash, hsome, htotal⟩ := h
  obtain ⟨digest, hdigest⟩ := htotal domain bytes
  exact ⟨digest, by simp [HashProvider.digest, hsome, hdigest]⟩

/-- A sequence of fallible steps succeeds exactly when each step does. -/
theorem bind_eq_ok_iff {ε α β : Type} {x : Except ε α} {f : α → Except ε β} {b : β} :
    (x >>= f) = .ok b ↔ ∃ a, x = .ok a ∧ f a = .ok b := by
  cases x <;> simp [bind, Except.bind]

theorem bind_eq_error_iff {ε α β : Type} {x : Except ε α} {f : α → Except ε β} {e : ε} :
    (x >>= f) = .error e ↔ x = .error e ∨ ∃ a, x = .ok a ∧ f a = .error e := by
  cases x <;> simp [bind, Except.bind]

theorem map_eq_ok {ε α β : Type} {f : α → β} {x : Except ε α} {b : β} (h : x.map f = .ok b) :
    ∃ a, x = .ok a ∧ f a = b := by
  cases x with
  | error status => cases h
  | ok a => exact ⟨a, rfl, Except.ok.inj h⟩

/-! ## Round trips -/

@[simp]
theorem length_octetBytes {n : ℕ} (x : Octets n) : (octetBytes x).length = n :=
  BigEndian.length_write _ _

private theorem two_pow_eight_mul (n : ℕ) : 2 ^ (8 * n) = 256 ^ n := by
  rw [pow_mul]
  norm_num

theorem octetBytes_injective {n : ℕ} {x y : Octets n}
    (h : octetBytes x = octetBytes y) : x = y := by
  have hx : x.toNat < 256 ^ n := two_pow_eight_mul n ▸ x.isLt
  have hy : y.toNat < 256 ^ n := two_pow_eight_mul n ▸ y.isLt
  exact BitVec.eq_of_toNat_eq (BigEndian.write_injective hx hy h)

/-- An array is read back from its octets. -/
theorem read_octetBytes {n : ℕ} (x : Octets n) : BigEndian.read (octetBytes x) = x.toNat :=
  BigEndian.read_write_of_lt (two_pow_eight_mul n ▸ x.isLt)

theorem toNat_octetsAt (p : Bytes) (off n : ℕ) :
    (octetsAt p off n).toNat = wireRead p off n := by
  have hlt := BigEndian.read_field_lt p off n
  rw [octetsAt, BitVec.toNat_ofNat, two_pow_eight_mul, wireRead, Nat.mod_eq_of_lt hlt]

/-- Copying a field into an array and back gives the field. -/
theorem octetBytes_octetsAt {p : Bytes} {off n : ℕ} (h : off + n ≤ p.length) :
    octetBytes (octetsAt p off n) = BigEndian.field p off n := by
  rw [octetBytes, toNat_octetsAt, wireWrite, wireRead, BigEndian.write_read_field h]

theorem wireRead_lt (p : Bytes) (off n : ℕ) : wireRead p off n < 256 ^ n :=
  BigEndian.read_field_lt p off n

theorem wireWrite_wireRead {p : Bytes} {off n : ℕ} (h : off + n ≤ p.length) :
    wireWrite n (wireRead p off n) = BigEndian.field p off n :=
  BigEndian.write_read_field h

/-- A nonempty field starts with the octet at its offset. -/
theorem field_succ {p : Bytes} {off : ℕ} (n : ℕ) (h : off < p.length) :
    BigEndian.field p off (n + 1) = byteAt p off :: BigEndian.field p (off + 1) n := by
  simp only [BigEndian.field, byteAt]
  rw [List.drop_eq_getElem_cons h, List.take_succ_cons]
  simp [h]

@[simp]
theorem field_zero (p : Bytes) (off : ℕ) : BigEndian.field p off 0 = [] := by
  simp [BigEndian.field]

@[simp]
theorem toNat_ofNat_wireRead_two (p : Bytes) (off : ℕ) :
    (UInt16.ofNat (wireRead p off 2)).toNat = wireRead p off 2 := by
  have h := wireRead_lt p off 2
  simp only [UInt16.toNat_ofNat']
  omega

@[simp]
theorem toNat_ofNat_wireRead_four (p : Bytes) (off : ℕ) :
    (UInt32.ofNat (wireRead p off 4)).toNat = wireRead p off 4 := by
  have h := wireRead_lt p off 4
  simp only [UInt32.toNat_ofNat']
  omega

@[simp]
theorem toNat_ofNat_wireRead_eight (p : Bytes) (off : ℕ) :
    (UInt64.ofNat (wireRead p off 8)).toNat = wireRead p off 8 := by
  have h := wireRead_lt p off 8
  simp only [UInt64.toNat_ofNat']
  omega

@[simp]
theorem length_wireWrite (n v : ℕ) : (wireWrite n v).length = n :=
  BigEndian.length_write n v

/-- A field of the first part of a concatenation. -/
theorem wireRead_append_left {p q : Bytes} {off n : ℕ} (h : off + n ≤ p.length) :
    wireRead (p ++ q) off n = wireRead p off n := by
  rw [wireRead, BigEndian.field_append_left h, wireRead]

/-- A field of the second part of a concatenation. -/
theorem wireRead_append_right {p q : Bytes} {off n : ℕ} (h : p.length ≤ off) :
    wireRead (p ++ q) off n = wireRead q (off - p.length) n := by
  rw [wireRead, BigEndian.field_append_right (Nat.add_sub_of_le h).symm, wireRead]

theorem octetsAt_append_left {p q : Bytes} {off n : ℕ} (h : off + n ≤ p.length) :
    octetsAt (p ++ q) off n = octetsAt p off n := by
  rw [octetsAt, wireRead_append_left h, octetsAt]

theorem octetsAt_append_right {p q : Bytes} {off n : ℕ} (h : p.length ≤ off) :
    octetsAt (p ++ q) off n = octetsAt q (off - p.length) n := by
  rw [octetsAt, wireRead_append_right h, octetsAt]

theorem wireRead_wireWrite {n v : ℕ} (h : v < 256 ^ n) : wireRead (wireWrite n v) 0 n = v := by
  rw [wireRead, wireWrite, BigEndian.field_zero_length (BigEndian.length_write n v),
    BigEndian.read_write_of_lt h]

@[simp]
theorem octetsAt_octetBytes {n : ℕ} (x : Octets n) : octetsAt (octetBytes x) 0 n = x := by
  apply octetBytes_injective
  rw [octetBytes_octetsAt (by simp), BigEndian.field_zero_length (length_octetBytes x)]

@[simp]
theorem ofNat_wireRead_wireWrite_two (v : UInt16) :
    UInt16.ofNat (wireRead (wireWrite 2 v.toNat) 0 2) = v := by
  rw [wireRead_wireWrite (by simpa using v.toNat_lt), UInt16.ofNat_toNat]

@[simp]
theorem ofNat_wireRead_wireWrite_four (v : UInt32) :
    UInt32.ofNat (wireRead (wireWrite 4 v.toNat) 0 4) = v := by
  rw [wireRead_wireWrite (by simpa using v.toNat_lt), UInt32.ofNat_toNat]

@[simp]
theorem ofNat_wireRead_wireWrite_eight (v : UInt64) :
    UInt64.ofNat (wireRead (wireWrite 8 v.toNat) 0 8) = v := by
  rw [wireRead_wireWrite (by simpa using v.toNat_lt), UInt64.ofNat_toNat]

/-! ## Fallible results -/

theorem exists_ok_of_toBool {ε α : Type} {x : Except ε α} (h : x.toBool = true) :
    ∃ a, x = .ok a := by
  cases x with
  | error e => simp [Except.toBool] at h
  | ok a => exact ⟨a, rfl⟩

theorem mapM_cons_eq_ok {α β ε : Type} {f : α → Except ε β} {a : α} {as : List α}
    {bs : List β} (h : (a :: as).mapM f = .ok bs) :
    ∃ b rest, f a = .ok b ∧ as.mapM f = .ok rest ∧ bs = b :: rest := by
  rw [List.mapM_cons] at h
  cases hf : f a with
  | error status =>
      rw [hf] at h
      cases h
  | ok b =>
      rw [hf] at h
      cases hrest : as.mapM f with
      | error status =>
          simp only [hrest] at h
          cases h
      | ok rest =>
          simp only [hrest] at h
          exact ⟨b, rest, rfl, rfl, (Except.ok.inj h).symm⟩

theorem length_of_mapM_eq_ok {α β ε : Type} {f : α → Except ε β} {as : List α} {bs : List β}
    (h : as.mapM f = .ok bs) : bs.length = as.length := by
  induction as generalizing bs with
  | nil =>
      obtain rfl := Except.ok.inj h
      rfl
  | cons a as ih =>
      obtain ⟨b, rest, -, hrest, rfl⟩ := mapM_cons_eq_ok h
      rw [List.length_cons, List.length_cons, ih hrest]

end StnChain
