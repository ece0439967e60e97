import X509Server.Interface.Trust

/-!
# Constraints and cardinalities

What the basic constraints of a certificate say about the fields, and the rules of the
quoted grammar that go beyond the shape of a certificate: `SIZE (1..MAX)`, and contents
of an INTEGER that are the shortest ones of their value.
-/

set_option autoImplicit false

namespace X509Server

open Der

/-! ## Basic constraints -/

/-- Shifted together from 0, each octet multiplies the value by 256 and adds itself: no bit
is shifted out, and none is set twice. -/
def PathLength.Lossless (p : PathLength) : Prop :=
  ∀ before b behind, p.octets = before ++ b :: behind →
    let v : UInt32 := before.foldl (fun v b => v <<< 8 ||| b.toUInt32) 0
    (v <<< 8 ||| b.toUInt32).toNat = v.toNat * 256 + b.toNat

/-- The basic constraints have been read into the two fields. -/
structure ConstraintsDecoded (f : X509Fields) (c : Certificate) : Prop where
  authority : f.keyCertSign = true ↔ ∃ pathLen, .basicConstraints (.ca pathLen) ∈ c.extensions
  present : ∀ p, .basicConstraints (.ca (some p)) ∈ c.extensions →
    (f.pathLenConstraint.toNat : ℤ) = intValue p.octets ∧ f.pathLenConstraint ≠ maxUint32 ∧
      p.Lossless
  absent : .basicConstraints (.ca none) ∈ c.extensions → f.pathLenConstraint = maxUint32
  notAuthority : (∀ pathLen, .basicConstraints (.ca pathLen) ∉ c.extensions) →
    f.pathLenConstraint = 0

/-! ## The quoted grammar -/

end X509Server
