import Blogd.Content.Template

/-! # The patterns of the program

The patterns that are compiled into the program, as expressions. What is assumed of the library is
that it compiles the text of each one to the backtracking matcher of its expression.
-/

namespace Blogd

open Regex

/-- The file extensions of the route table, in its order. -/
def fileExtensions : List Bytes :=
  [ascii "gif", ascii "jpg", ascii "jpeg", ascii "png", ascii "htm", ascii "html", ascii "js",
    ascii "css", ascii "woff", ascii "woff2", ascii "ttf"]

/-- `^/$` -/
def indexRegex : Regex := seq lineStart (seq (text (ascii "/")) lineEnd)

/-- `(.*?)\.(gif|jpg|jpeg|png|htm|html|js|css|woff|woff2|ttf)` -/
def fileRegex : Regex :=
  seq (group 1 (star true dot)) (seq (text (ascii ".")) (group 2 (oneOf fileExtensions)))

/-- `/page/(\d)+` -/
def pageRegex : Regex :=
  seq (text (ascii "/page/")) (seq (group 1 digit) (star false (group 1 digit)))

/-- `/(.*)` -/
def contentRegex : Regex := seq (text (ascii "/")) (group 1 (star false dot))

/-- `@section_name\s*((.|\n)*?)\s*@endsection` -/
def sectionRegex (name : String) : Regex :=
  seq (text (ascii "@section_" ++ ascii name)) (seq (star false space)
    (seq (group 1 (star true (group 2 (alt dot (byte (· = LF))))))
      (seq (star false space) (text (ascii "@endsection")))))

def sectionNames : List String :=
  ["title", "meta_description", "description", "thumbnail", "content", "published_at"]

/-- The library compiles the patterns of the program. -/
structure External.PcreSpec (ext : External) : Prop where
  index : ext.pcreCompile (ascii "^/$") = some (indexRegex.toPcre 0)
  file : ext.pcreCompile (ascii "(.*?)\\.(gif|jpg|jpeg|png|htm|html|js|css|woff|woff2|ttf)") =
    some (fileRegex.toPcre 2)
  page : ext.pcreCompile (ascii "/page/(\\d)+") = some (pageRegex.toPcre 1)
  content : ext.pcreCompile (ascii "/(.*)") = some (contentRegex.toPcre 1)
  sections : ∀ name ∈ sectionNames,
    ext.pcreCompile (sectionPattern name) = some ((sectionRegex name).toPcre 2)

/-- The texts of the groups of the match that an expression finds. -/
def groupTexts (r : Regex) (captureCount : Nat) (data : Bytes) : Option (List Bytes) :=
  (r.search data).map fun c =>
    (List.range captureCount).map fun it => groupText data (c.groups (it + 1))

theorem pregMatch_toPcre {ext : External} {pattern : Bytes} {r : Regex} {captureCount : Nat}
    (hcompile : ext.pcreCompile pattern = some (r.toPcre captureCount))
    (hcount : captureCount * 8 ≤ oveccount) (data : Bytes) :
    pregMatch ext pattern data = .ok (groupTexts r captureCount data) := by
  simp only [pregMatch, hcompile, Regex.toPcre, groupTexts]
  cases r.search data with
  | none => rfl
  | some c => simp only [Option.map_some, if_neg (Nat.not_lt.mpr hcount)]

end Blogd
