import FieldPost.Path

/-!
Media types of files, told by the extension of the name in letters of either case. A file
without an extension, or with one that is not listed, is a plain sequence of bytes. The list has
the extensions of what is usually attached and is only a part of the tables in common use.
-/

namespace FieldPost.Http.MediaType

def unknown : String := "application/octet-stream"

def images : List (String × String) :=
  [("jpg", "image/jpeg"), ("jpeg", "image/jpeg"), ("png", "image/png"), ("gif", "image/gif"),
   ("bmp", "image/bmp"), ("webp", "image/webp"), ("svg", "image/svg+xml"),
   ("tif", "image/tiff"), ("tiff", "image/tiff"), ("heic", "image/heic"),
   ("heif", "image/heif"), ("ico", "image/x-icon")]

def recordings : List (String × String) :=
  [("mp3", "audio/mpeg"), ("wav", "audio/wav"), ("ogg", "audio/ogg"), ("oga", "audio/ogg"),
   ("m4a", "audio/m4a"), ("aac", "audio/aac"), ("mid", "audio/mid"), ("flac", "audio/flac"),
   ("opus", "audio/ogg"), ("mp4", "video/mp4"), ("3gp", "video/3gpp"), ("3gpp", "video/3gpp"),
   ("mov", "video/quicktime"), ("avi", "video/x-msvideo"), ("webm", "video/webm")]

def texts : List (String × String) :=
  [("csv", "text/csv"), ("tsv", "text/tab-separated-values"), ("txt", "text/plain"),
   ("text", "text/plain"), ("log", "text/plain"), ("md", "text/markdown"), ("xml", "text/xml"),
   ("html", "text/html"), ("htm", "text/html"), ("css", "text/css"),
   ("js", "text/javascript"), ("yaml", "text/x-yaml"), ("toml", "text/x-toml")]

def documents : List (String × String) :=
  [("pdf", "application/pdf"), ("json", "application/json"),
   ("geojson", "application/geo+json"), ("zip", "application/zip"),
   ("gz", "application/gzip"), ("doc", "application/msword"),
   ("docx", "application/vnd.openxmlformats-officedocument.wordprocessingml.document"),
   ("xls", "application/vnd.ms-excel"),
   ("xlsx", "application/vnd.openxmlformats-officedocument.spreadsheetml.sheet"),
   ("odt", "application/vnd.oasis.opendocument.text"),
   ("kml", "application/vnd.google-earth.kml+xml"), ("gpx", "application/gpx+xml"),
   ("rtf", "application/rtf"), ("ppt", "application/vnd.ms-powerpoint"),
   ("pptx", "application/vnd.openxmlformats-officedocument.presentationml.presentation"),
   ("apk", "application/vnd.android.package-archive"), ("jar", "application/java-archive"),
   ("7z", "application/x-7z-compressed"), ("tar", "application/x-tar")]

def byExtension : List (String × String) := images ++ recordings ++ texts ++ documents

def ofFileName (fileName : String) : String :=
  match Path.extension? fileName with
  | none => unknown
  | some extension =>
      (byExtension.lookup (String.ofList (extension.toList.map Char.toLower))).getD unknown

end FieldPost.Http.MediaType
