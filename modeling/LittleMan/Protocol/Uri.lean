import LittleMan.Text.Basic
import LittleMan.Text.Slice

/-! Names of documents that are files. Nothing is encoded: the path is all that follows `file://`. -/

namespace LittleMan

def fileScheme : Text := "file://"

def pathOfUri? (uri : Text) : Option Text :=
  if fileScheme.toList.isPrefixOf uri.toList then
    some (Text.ofList (uri.toList.drop fileScheme.length))
  else none

/-- The parts of an absolute path that are left when `.`, `..` and empty parts are resolved, from the
last to the first. -/
def resolveParts (parts : List Text) : List Text :=
  parts.foldl (fun (done : List Text) (part : Text) =>
    if part = "" ∨ part = "." then done
    else if part = ".." then done.drop 1
    else part :: done) []

/-- An absolute path in its shortest form. Two slashes at its head are kept, three or more are one. -/
def normalizePath (path : Text) : Text :=
  let slashes := path.toList.takeWhile (· == .scalar '/')
  let root : Text := if slashes.length = 2 then "//" else "/"
  let parts := (cutAt (.scalar '/') path.toList).map Text.ofList
  root ++ Text.intercalate "/" (resolveParts parts).reverse

def uriOfPath (path : Text) : Text := fileScheme ++ normalizePath path

end LittleMan
