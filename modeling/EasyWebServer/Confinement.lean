import EasyWebServer.Get.ServedPath
import EasyWebServer.Post.ServedPath

/-!
# Path confinement

Both servers append what the client has sent as `m_url` to their document root, and
neither looks for `..` in it.  A request can therefore leave the document root, and
`servedFile_inside_iff` says which requests do not: those whose `m_url`, as a relative
path in normal form, stays below the root, and in the POST server those that are
answered with one of its own pages.

The rule for the relative path is `LexicalPath.StaysBelow`.  Without a leading `..` in
the normal form it asks for one name, and `m` of them must be followed by the last `m`
directories of the document root and one more name.
-/

namespace EasyWebServer

open LexicalPath
open Common (dot Inside)

/-- In both servers, a request that is answered `FILE_REQUEST` is answered from inside
the document root exactly when the connection with which `do_request` is called says
so. -/
theorem servedFile_inside_iff (w : Post.World) (c : Post.HttpConn) (w' : Get.World)
    (c' : Get.HttpConn) (reads : List (List RecvOutcome)) (path : Bytes) :
    (Post.servedFile w c.init reads = some path →
      (Inside Post.docRoot path ↔ ∃ d ∈ Post.requestOf c.init reads, Post.StaysInside d)) ∧
    (Get.servedFile w' c'.init reads = some path →
      (Inside Get.docRoot path ↔ ∃ d ∈ Get.requestOf c'.init reads, Get.StaysInside d)) :=
  ⟨Post.inside_servedFile_iff, Get.inside_servedFile_iff⟩

/-- A file system with one readable file. -/
def onlyFile (place : List Bytes) (path : Bytes) : Option FileStat :=
  if resolve slash dot path = place then some ⟨1024, true, false⟩ else none

/-- The two servers on that file system. -/
def postOnly (place : List Bytes) : Post.World :=
  ⟨Post.UserMap.empty, fun _ => true, onlyFile place, fun _ => .mapped 4096⟩

def getOnly (place : List Bytes) : Get.World := ⟨onlyFile place, fun _ => .mapped 4096⟩

/-- A shortcut of the POST server, behind a step out of the document root. -/
def shortcutReads : List (List RecvOutcome) :=
  [[.data (ascii "GET /../0 HTTP/1.1\r\n\r\n"), .again]]

/-- A path that comes back to the document root of the GET server. -/
def returningReads : List (List RecvOutcome) :=
  [[.data (ascii "GET /img/../../httpTest//./a.html HTTP/1.1\r\n\r\n"), .again]]

/-- A request for a file of the system. -/
def passwdReads : List (List RecvOutcome) :=
  [[.data (ascii "GET /../../../../etc/passwd HTTP/1.1\r\n\r\n"), .again]]

theorem servedFile_inside_shortcut :
    Inside Post.docRoot (Post.docRoot ++ ascii "/register.html") ∧
    Inside Get.docRoot (Get.docRoot ++ ascii "/img/../../httpTest//./a.html") := by
  constructor
  · have hserved : Post.servedFile (postOnly (resolve slash dot
        (Post.docRoot ++ ascii "/register.html"))) Post.HttpConn.blank.init shortcutReads =
        some (Post.docRoot ++ ascii "/register.html") := by decide
    exact ((servedFile_inside_iff _ _ (getOnly []) Get.HttpConn.blank _ _).1 hserved).mpr
      (by decide)
  · have hserved : Get.servedFile (getOnly (resolve slash dot
        (Get.docRoot ++ ascii "/a.html"))) Get.HttpConn.blank.init returningReads =
        some (Get.docRoot ++ ascii "/img/../../httpTest//./a.html") := by decide +kernel
    exact ((servedFile_inside_iff (postOnly []) Post.HttpConn.blank _ _ _ _).2 hserved).mpr
      (by decide)

/-- Both servers send the file of the system. -/
theorem not_inside_passwd :
    (¬ ∀ path, Post.servedFile (postOnly [ascii "etc", ascii "passwd"])
        Post.HttpConn.blank.init passwdReads = some path → Inside Post.docRoot path) ∧
    ¬ ∀ path, Get.servedFile (getOnly [ascii "etc", ascii "passwd"])
        Get.HttpConn.blank.init passwdReads = some path → Inside Get.docRoot path := by
  constructor
  · intro h
    have hin := h (Post.docRoot ++ ascii "/../../../../etc/passwd") (by decide +kernel)
    exact absurd hin (by decide)
  · intro h
    have hin := h (Get.docRoot ++ ascii "/../../../../etc/passwd") (by decide +kernel)
    exact absurd hin (by decide)

end EasyWebServer
