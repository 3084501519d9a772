import OneDriveDavfs.Library.Percent

/-! Percent-encoded paths: `pct_encode` and `pct_decode` of `src/xml.rs`. -/

set_option autoImplicit false

namespace OneDriveDavfs.Xml

open Library Library.Wire

/-- The bytes that `pct_encode` leaves as they are. -/
def plain (byte : UInt8) : Bool := Percent.unreserved byte || byte = 0x2F

def pctEncode (path : String) : String := latin (Percent.encode plain (utf8 path))

def pctDecode (input : String) : Option String := (Percent.decode (utf8 input)).bind fromUtf8

end OneDriveDavfs.Xml
