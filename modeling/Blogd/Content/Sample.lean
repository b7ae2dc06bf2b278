import Blogd.Content.InitContents
import Blogd.Content.Patterns

/-! # A small content directory

A library that compiles the patterns of the program, and a directory with the given posts. The
hypotheses of the main results hold for them.
-/

namespace Blogd

def samplePcreCompile (pattern : Bytes) : Option Pcre :=
  if pattern = ascii "^/$" then some (indexRegex.toPcre 0)
  else if pattern = ascii "(.*?)\\.(gif|jpg|jpeg|png|htm|html|js|css|woff|woff2|ttf)" then
    some (fileRegex.toPcre 2)
  else if pattern = ascii "/page/(\\d)+" then some (pageRegex.toPcre 1)
  else if pattern = ascii "/(.*)" then some (contentRegex.toPcre 1)
  else if pattern = ascii "reload=1" then some ((Regex.text (ascii "reload=1")).toPcre 0)
  else if pattern = ascii "(?!)" then some ((Regex.byte fun _ => false).toPcre 0)
  else (sectionNames.find? fun name => sectionPattern name = pattern).map fun name =>
    (sectionRegex name).toPcre 2

/-- Rendered text is the text itself. -/
def sampleExternal : External where
  pcreCompile := samplePcreCompile
  compileMarkdownContent s := ⟨s ++ [0], s.length⟩

theorem sampleExternal_pcreSpec : sampleExternal.PcreSpec where
  index := rfl
  file := rfl
  page := rfl
  content := rfl
  sections := by
    intro name hname
    simp only [sectionNames, List.mem_cons, List.not_mem_nil, or_false] at hname
    rcases hname with rfl | rfl | rfl | rfl | rfl | rfl <;> rfl

/-- A content directory with the given posts. Its pages show the links to the posts and to the
next page. -/
def sampleDir (posts : List PostFile) : ContentDir where
  layout := some (ascii "\x7b\x7b content \x7d\x7d")
  header := some []
  contentTop := some []
  footer := some []
  post := some (ascii "<a href='\x7b\x7b link \x7d\x7d'></a>")
  page := some (ascii
    "@section_content\x7b\x7b posts \x7d\x7d\x7b\x7b more \x7d\x7d@endsection")
  error400 := some (ascii "400")
  error404 := some (ascii "404")
  error500 := some (ascii "500")
  posts := posts

def samplePost : PostFile :=
  ⟨ascii "a.html", by decide, false, some (ascii "@section_content A @endsection")⟩

end Blogd
