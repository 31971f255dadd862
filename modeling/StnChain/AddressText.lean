import StnChain.Identity

/-!
# Addresses as text

An address is written as a label that names its type and the sixty-four
lowercase hexadecimal digits of its identifier (`stn_address.c`).
-/

namespace StnChain

/-- The address type a wire value denotes. -/
def AddressType.ofWire : ℕ → Option AddressType
  | 1 => some .identity
  | 2 => some .contract
  | 3 => some .wallet
  | _ => none

/-- `prefix`. -/
def AddressType.label : AddressType → Bytes
  | .identity => ascii "stn0_"
  | .contract => ascii "stnc0_"
  | .wallet => ascii "stnw0_"

/-- `nibble`. -/
def nibble (c : UInt8) : Option ℕ :=
  if 0x30 ≤ c && c ≤ 0x39 then some (c.toNat - 0x30)
  else if 0x61 ≤ c && c ≤ 0x66 then some (c.toNat - 0x61 + 10)
  else none

/-- The octets that pairs of digits denote. -/
def hexPairs : Bytes → Option Bytes
  | [] => some []
  | [_] => none
  | high :: low :: rest =>
      match nibble high, nibble low, hexPairs rest with
      | some h, some l, some bytes => some (UInt8.ofNat (16 * h + l) :: bytes)
      | _, _, _ => none

/-- The type whose label a text starts with. -/
def labelled (text : Bytes) : Option AddressType :=
  if text.take 5 = AddressType.identity.label then some .identity
  else if text.take 6 = AddressType.contract.label then some .contract
  else if text.take 6 = AddressType.wallet.label then some .wallet
  else none

/-- `stn_address_decode`. -/
def addressDecode (text : Bytes) : Except DataStatus Address :=
  if text.length ≠ 69 ∧ text.length ≠ 70 then .error .length
  else
    match labelled text with
    | none => .error .type
    | some type =>
        if text.length ≠ type.label.length + 64 then .error .length
        else
          match hexPairs (text.drop type.label.length) with
          | none => .error .content
          | some identifier => .ok ⟨type, octetsAt identifier 0 32⟩

/-- A text that denotes an address of a given type. -/
def addressOfType (type : AddressType) (text : Bytes) : Bool :=
  match addressDecode text with
  | .ok address => address.type = type
  | .error _ => false

/-- The digit of a value below sixteen. -/
def hexDigit (n : ℕ) : UInt8 :=
  if n < 10 then UInt8.ofNat (0x30 + n) else UInt8.ofNat (0x61 + (n - 10))

/-- The digits of some octets. -/
def hexText (bytes : Bytes) : Bytes :=
  bytes.flatMap fun b => [hexDigit (b.toNat / 16), hexDigit (b.toNat % 16)]

/-- The full text of an address. -/
def addressText (address : Address) : Bytes :=
  address.type.label ++ hexText (octetBytes address.identifier)

/-- `STN_ADDRESS_TEXT_CAPACITY`. -/
def addressTextCapacity : ℕ := 71

/-- `stn_address_encode`; the capacity has to leave room for the terminator. -/
def addressEncode (address : Address) (capacity : ℕ) : Except DataStatus Bytes :=
  if capacity ≤ address.type.label.length + 64 then .error .capacity
  else .ok (addressText address)

/-! ## Lengths -/

@[simp]
theorem length_hexText (bytes : Bytes) : (hexText bytes).length = 2 * bytes.length := by
  induction bytes with
  | nil => rfl
  | cons b bytes ih =>
    simp only [hexText, List.flatMap_cons, List.length_append, List.length_cons,
      List.length_nil] at ih ⊢
    omega

theorem length_addressText (address : Address) :
    (addressText address).length = address.type.label.length + 64 := by
  simp [addressText]

end StnChain
