import X509Server.Analysis.CertificateSpec
import X509Server.Interface.Trust
import X509Server.Interface.Walk

/-!
# What stands where the parser comes to

On the encoding of a certificate the parser comes to the loop over the extensions with the
encoded list in front of it, to the loop's test with the rest of the list
(`reachesExtension_split`), and to a handler with the value of a member of the list.
Each of these is there for every member, and there is no other.
-/

set_option autoImplicit false

namespace X509Server

open Checked ByteWindow Der

namespace Certificate

variable (c : Certificate)

/-! ## The serial number -/

/-- The cursor in front of the extensions field, and the octets behind it. -/
theorem parseTbsHead_eq (f : X509Fields) (hlen : c.encode.length < 2 ^ 63) :
    ∃ f', parseTbsHead c.encode c.tbsStart c.encode.length f =
        .ok (c.tbsCertificate.extensionsStart c.tbsStart,
          c.tbsStart + c.tbsCertificate.encode.length, f') ∧
      c.tbsStart + c.tbsCertificate.encode.length ≤ c.encode.length ∧
      window c.encode (c.tbsCertificate.extensionsStart c.tbsStart)
        (c.tbsStart + c.tbsCertificate.encode.length) =
        encodeOptionalExtensions c.tbsCertificate.extensions := by
  have hw := c.window_content.trans (Certificate.content.eq_def c)
  obtain ⟨f', hhead, -, hwindow⟩ := c.tbsCertificate.parseTbsHead_eq (f := f) hw le_rfl hlen
  have hle := le_of_window_append hw (tlv_ne_nil derSequence c.tbsCertificate.content)
  exact ⟨f', hhead, (Nat.le_add_right _ _).trans hle, hwindow⟩

variable {c}

end Certificate

end X509Server
