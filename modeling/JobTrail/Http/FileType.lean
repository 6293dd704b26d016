import JobTrail.Blob.Path
import JobTrail.Http.Message

/-! # Types of files

The media type of a stored file, told by the extension of its name in either case.
-/

namespace JobTrail.FileType

def unknown : String := "application/octet-stream"

def table : List (String × String) :=
  [("7z", "application/x-7z-compressed"), ("aac", "audio/aac"), ("avi", "video/x-msvideo"),
    ("bmp", "image/bmp"), ("bz2", "application/x-bzip2"), ("c", "text/plain"), ("css", "text/css"),
    ("csv", "text/csv"), ("doc", "application/msword"),
    ("docx", "application/vnd.openxmlformats-officedocument.wordprocessingml.document"),
    ("epub", "application/epub+zip"), ("gif", "image/gif"), ("gz", "application/gzip"),
    ("htm", "text/html"), ("html", "text/html"), ("ico", "image/x-icon"), ("ics", "text/calendar"),
    ("jpeg", "image/jpeg"), ("jpg", "image/jpeg"), ("js", "text/javascript"),
    ("json", "application/json"), ("log", "text/plain"), ("md", "text/markdown"),
    ("mov", "video/quicktime"), ("mp3", "audio/mpeg"), ("mp4", "video/mp4"), ("mpeg", "video/mpeg"),
    ("odp", "application/vnd.oasis.opendocument.presentation"),
    ("ods", "application/vnd.oasis.opendocument.spreadsheet"),
    ("odt", "application/vnd.oasis.opendocument.text"), ("ogg", "audio/ogg"), ("otf", "font/otf"),
    ("pdf", "application/pdf"), ("png", "image/png"), ("ppt", "application/vnd.ms-powerpoint"),
    ("pptx", "application/vnd.openxmlformats-officedocument.presentationml.presentation"),
    ("ps", "application/postscript"), ("py", "text/plain"), ("rar", "application/x-rar-compressed"),
    ("rtf", "application/rtf"), ("sh", "application/x-sh"), ("svg", "image/svg+xml"),
    ("tar", "application/x-tar"), ("tif", "image/tiff"), ("tiff", "image/tiff"),
    ("tsv", "text/tab-separated-values"), ("ttf", "font/ttf"), ("txt", "text/plain"),
    ("wasm", "application/wasm"), ("wav", "audio/wav"), ("webm", "video/webm"),
    ("webp", "image/webp"), ("woff", "font/woff"), ("woff2", "font/woff2"),
    ("xhtml", "application/xhtml+xml"), ("xls", "application/vnd.ms-excel"),
    ("xlsx", "application/vnd.openxmlformats-officedocument.spreadsheetml.sheet"),
    ("xml", "text/xml"), ("yaml", "text/x-yaml"), ("yml", "text/x-yaml"), ("zip", "application/zip")]

def ofName (name : String) : String :=
  ((BlobPath.extension? name).bind fun ext => table.lookup (lowercase ext)).getD unknown

end JobTrail.FileType
