/-!
Case folding of the ASCII letters; every other character stays as it is.
-/

namespace Telemetry

def lowerAscii (s : String) : String := String.ofList (s.toList.map Char.toLower)

end Telemetry
