import X509Server.Library.Der
import X509Server.Model.Certificate

/-!
# Where the parser comes to

The cursors with which `parse_x509` comes to the places where it reads a collection or the
contents of an INTEGER, each described by the calls in front of it.  `Regular` is a
condition on the octets of a certificate: the two loops that are guarded by their cursor
are entered, and an INTEGER has as many octets as its value needs.
-/

set_option autoImplicit false

namespace X509Server

open ByteWindow Der

section Walk

variable (raw : Bytes)

end Walk

end X509Server
