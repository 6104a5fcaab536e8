import PaneCompletion.Path.Extension
import PaneCompletion.Text.LowerCase

/-!
# Content types by name

The content type that a file's name suggests: from the prefix of a `data:` address, or else from
the suffix, after short forms of packed archives are written out and one suffix of a compression is
taken off. Suffixes are looked up in lower case, those of compressions as they are written.

This is the guess of a system without content types of its own, which takes from an address no more
than its scheme. What another one guesses is its own affair; it may also refuse a name that is no
address (`Defect`).
-/

namespace PaneCompletion.ContentType

/-- Why a name suggests nothing, not even that its content type is unknown: the system takes it for
an address, and it is none. -/
structure Defect where
  wording : Text
  deriving DecidableEq, Repr

/-- The short forms of packed archives, written out. -/
def shortForms : List (String × String) :=
  [(".svgz", ".svg.gz"), (".tgz", ".tar.gz"), (".taz", ".tar.gz"), (".tz", ".tar.gz"),
    (".tbz2", ".tar.bz2"), (".txz", ".tar.xz")]

/-- The suffixes of compressions. -/
def compressions : List String := [".gz", ".Z", ".bz2", ".xz", ".br"]

/-- The content types with their suffixes. -/
def table : List (String × List String) :=
  [("application/javascript", [".js", ".mjs"]),
    ("application/json", [".json"]),
    ("application/manifest+json", [".webmanifest"]),
    ("application/msword", [".doc", ".dot", ".wiz"]),
    ("application/n-quads", [".nq"]),
    ("application/n-triples", [".nt"]),
    ("application/octet-stream", [".a", ".bin", ".dll", ".exe", ".o", ".obj", ".so"]),
    ("application/oda", [".oda"]),
    ("application/pdf", [".pdf"]),
    ("application/pkcs7-mime", [".p7c"]),
    ("application/postscript", [".ai", ".eps", ".ps"]),
    ("application/trig", [".trig"]),
    ("application/vnd.apple.mpegurl", [".m3u", ".m3u8"]),
    ("application/vnd.ms-excel", [".xlb", ".xls"]),
    ("application/vnd.ms-powerpoint", [".pot", ".ppa", ".pps", ".ppt", ".pwz"]),
    ("application/wasm", [".wasm"]),
    ("application/x-bcpio", [".bcpio"]),
    ("application/x-cpio", [".cpio"]),
    ("application/x-csh", [".csh"]),
    ("application/x-dvi", [".dvi"]),
    ("application/x-gtar", [".gtar"]),
    ("application/x-hdf", [".hdf"]),
    ("application/x-hdf5", [".h5"]),
    ("application/x-latex", [".latex"]),
    ("application/x-mif", [".mif"]),
    ("application/x-netcdf", [".cdf", ".nc"]),
    ("application/x-pkcs12", [".p12", ".pfx"]),
    ("application/x-pn-realaudio", [".ram"]),
    ("application/x-python-code", [".pyc", ".pyo"]),
    ("application/x-sh", [".sh"]),
    ("application/x-shar", [".shar"]),
    ("application/x-shockwave-flash", [".swf"]),
    ("application/x-sv4cpio", [".sv4cpio"]),
    ("application/x-sv4crc", [".sv4crc"]),
    ("application/x-tar", [".tar"]),
    ("application/x-tcl", [".tcl"]),
    ("application/x-tex", [".tex"]),
    ("application/x-texinfo", [".texi", ".texinfo"]),
    ("application/x-troff", [".roff", ".t", ".tr"]),
    ("application/x-troff-man", [".man"]),
    ("application/x-troff-me", [".me"]),
    ("application/x-troff-ms", [".ms"]),
    ("application/x-ustar", [".ustar"]),
    ("application/x-wais-source", [".src"]),
    ("application/xml", [".rdf", ".wsdl", ".xpdl", ".xsl"]),
    ("application/zip", [".zip"]),
    ("audio/3gpp", [".3gp", ".3gpp"]),
    ("audio/3gpp2", [".3g2", ".3gpp2"]),
    ("audio/aac", [".aac", ".adts", ".ass", ".loas"]),
    ("audio/basic", [".au", ".snd"]),
    ("audio/mpeg", [".mp2", ".mp3"]),
    ("audio/opus", [".opus"]),
    ("audio/x-aiff", [".aif", ".aifc", ".aiff"]),
    ("audio/x-pn-realaudio", [".ra"]),
    ("audio/x-wav", [".wav"]),
    ("image/avif", [".avif"]),
    ("image/bmp", [".bmp"]),
    ("image/gif", [".gif"]),
    ("image/heic", [".heic"]),
    ("image/heif", [".heif"]),
    ("image/ief", [".ief"]),
    ("image/jpeg", [".jpe", ".jpeg", ".jpg"]),
    ("image/png", [".png"]),
    ("image/svg+xml", [".svg"]),
    ("image/tiff", [".tif", ".tiff"]),
    ("image/vnd.microsoft.icon", [".ico"]),
    ("image/x-cmu-raster", [".ras"]),
    ("image/x-portable-anymap", [".pnm"]),
    ("image/x-portable-bitmap", [".pbm"]),
    ("image/x-portable-graymap", [".pgm"]),
    ("image/x-portable-pixmap", [".ppm"]),
    ("image/x-rgb", [".rgb"]),
    ("image/x-xbitmap", [".xbm"]),
    ("image/x-xpixmap", [".xpm"]),
    ("image/x-xwindowdump", [".xwd"]),
    ("message/rfc822", [".eml", ".mht", ".mhtml", ".nws"]),
    ("text/css", [".css"]),
    ("text/csv", [".csv"]),
    ("text/html", [".htm", ".html"]),
    ("text/n3", [".n3"]),
    ("text/plain", [".bat", ".c", ".h", ".ksh", ".pl", ".srt", ".txt"]),
    ("text/richtext", [".rtx"]),
    ("text/tab-separated-values", [".tsv"]),
    ("text/vtt", [".vtt"]),
    ("text/x-python", [".py"]),
    ("text/x-setext", [".etx"]),
    ("text/x-sgml", [".sgm", ".sgml"]),
    ("text/x-vcard", [".vcf"]),
    ("text/xml", [".xml"]),
    ("video/mp4", [".mp4"]),
    ("video/mpeg", [".m1v", ".mpa", ".mpe", ".mpeg", ".mpg"]),
    ("video/quicktime", [".mov", ".qt"]),
    ("video/webm", [".webm"]),
    ("video/x-msvideo", [".avi"]),
    ("video/x-sgi-movie", [".movie"])]

/-- The content type of a suffix in lower case. -/
def ofSuffix? (suffix : Text) : Option Text :=
  (table.find? fun entry => entry.2.any (·.toList = suffix)).map (·.1.toList)

/-- The written-out form of a suffix in lower case. -/
def longForm? (suffix : Text) : Option Text :=
  (shortForms.find? (·.1.toList = suffix)).map (·.2.toList)

/-- The scheme in front of an address, and what follows it: a text without slash, then a colon. -/
def splitScheme (address : Text) : Text × Text :=
  let scheme := address.takeWhile fun c => c ≠ '/' ∧ c ≠ ':'
  match scheme, address.drop scheme.length with
  | _ :: _, ':' :: rest => (scheme, rest)
  | _, _ => ([], address)

/-- The content type that a `data:` address states, plain text when it states none; no type where
no comma ends the statement. -/
def ofData? (address : Text) : Option Text :=
  if address.contains ',' then
    let stated := (address.takeWhile (· ≠ ',')).takeWhile (· ≠ ';')
    some (if stated.contains '=' || !stated.contains '/' then "text/plain".toList else stated)
  else none

/-- The content type that a file name or an address suggests. -/
def guess? (name : Text) : Option Text :=
  let (scheme, address) := splitScheme name
  if Text.lower scheme = "data".toList then ofData? address
  else
    let (stem, suffix) := Path.splitSuffix address
    let (stem, suffix) :=
      match longForm? (Text.lower suffix) with
      | some long => Path.splitSuffix (stem ++ long)
      | none => (stem, suffix)
    let suffix :=
      if compressions.any (·.toList = suffix) then (Path.splitSuffix stem).2 else suffix
    ofSuffix? (Text.lower suffix)

end PaneCompletion.ContentType
