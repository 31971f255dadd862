import Mathlib.GroupTheory.OrderOfElement

/-!
# Schnorr signatures

A signature is an encoded commitment with a response.  It is verified by computing the
commitment back from the response, the key and the challenge.  A signature that verifies for
one message verifies for another exactly when the challenges take the keys' points to one
multiple (`Verifies.iff_confuses`); under one key, when they are congruent modulo the order of
its point (`confuses_self_iff`).  Under a key of order two, that is every other message.
-/

namespace Schnorr

/-- A scheme over the points `G`, with keys and encoded commitments in `κ` and messages in
`M`. -/
structure Scheme (G κ M : Type*) where
  base : G
  /-- The point of a key; not every key has one. -/
  point : κ → Option G
  encode : G → κ
  /-- The challenge of a commitment, a key and a message. -/
  challenge : κ → κ → M → ℕ
  encode_injective : Function.Injective encode

namespace Scheme

variable {G κ M : Type*} [AddGroup G] {s : Scheme G κ M} {key key' R : κ} {m m' : M} {S : ℕ}

/-- The commitment `R` is what the response `S` and the challenge give. -/
def Verifies (s : Scheme G κ M) (m : M) (key R : κ) (S : ℕ) : Prop :=
  ∃ A, s.point key = some A ∧ s.encode (S • s.base - s.challenge R key m • A) = R

instance [DecidableEq κ] : Decidable (s.Verifies m key R S) :=
  decidable_of_iff
    ((s.point key).any fun A => s.encode (S • s.base - s.challenge R key m • A) = R)
    (by simp [Verifies, Option.any_eq_true])

/-- Under the commitment `R`, the two challenges take the two points to one multiple. -/
def Confuses (s : Scheme G κ M) (R key : κ) (m : M) (key' : κ) (m' : M) : Prop :=
  ∃ A A', s.point key = some A ∧ s.point key' = some A' ∧
    s.challenge R key m • A = s.challenge R key' m' • A'

/-- One signature verifies for two messages exactly when they are confused. -/
theorem Verifies.iff_confuses (h : s.Verifies m key R S) :
    s.Verifies m' key' R S ↔ s.Confuses R key m key' m' := by
  obtain ⟨A, hA, hR⟩ := h
  constructor
  · rintro ⟨A', hA', hR'⟩
    have hpoint := s.encode_injective (hR.trans hR'.symm)
    exact ⟨A, A', hA, hA', sub_right_inj.mp hpoint⟩
  · rintro ⟨B, A', hB, hA', hsame⟩
    obtain rfl := Option.some.inj (hA.symm.trans hB)
    exact ⟨A', hA', by rw [← hsame]; exact hR⟩

/-- Under one key, messages are confused modulo the order of its point. -/
theorem confuses_self_iff : s.Confuses R key m key m' ↔
    ∃ A, s.point key = some A ∧
      s.challenge R key m ≡ s.challenge R key m' [MOD addOrderOf A] := by
  constructor
  · rintro ⟨A, A', hA, hA', hsame⟩
    obtain rfl := Option.some.inj (hA.symm.trans hA')
    exact ⟨A, hA, nsmul_eq_nsmul_iff_modEq.mp hsame⟩
  · rintro ⟨A, hA, hmod⟩
    exact ⟨A, A, hA, hA, nsmul_eq_nsmul_iff_modEq.mpr hmod⟩

end Scheme

end Schnorr
