import LittleMan.Fault
import LittleMan.Text.Lines
import LittleMan.Text.Slice

/-! Files and directories held in memory. Of what lies above the working directory, only what is put
there is known. -/

namespace LittleMan

/-- The text that a file holds: UTF-8, every break read as a line feed. -/
def textOfFile (content : List UInt8) : Except Fault (List CodePoint) :=
  match String.fromUTF8? ⟨content.toArray⟩ with
  | some text => .ok (normalizeBreaks (Text.toList text))
  | none => .error .badEncoding

/-- The text of the file at a path, or why it cannot be had. -/
abbrev FileReader : Type := Text → Except Fault (List CodePoint)

/-- The bytes of a path. The surrogates from `0xdc80` to `0xdcff` stand for bytes that are no text, and no
other surrogate has bytes. -/
def pathBytes : List CodePoint → Except Fault (List UInt8)
  | [] => .ok []
  | .scalar c :: rest => (pathBytes rest).map (String.utf8EncodeChar c ++ ·)
  | .surrogate n :: rest =>
    if 0x480 ≤ n.val ∧ n.val < 0x500 then (pathBytes rest).map (UInt8.ofNat (n - 0x400) :: ·)
    else .error .loneSurrogate

abbrev FileName : Type := List UInt8

/-- Files and directories. Each is named by the parts of its path from the working directory; a path
above that directory starts with `..`, an absolute path with `/`. -/
structure FileTree where
  files : List (List FileName × List UInt8) := []
  folders : List (List FileName) := []
  deriving DecidableEq, Repr

/-- What a path leads to. A path that ends in a slash can only be a directory. -/
inductive Destination where
  | folder
  | file (path : List FileName) (content : List UInt8) (slash : Bool)
  /-- Nothing, in a directory that exists. -/
  | vacant (path : List FileName) (slash : Bool)
  /-- A name that is too long, in a directory that exists. -/
  | overlong (slash : Bool)
  | nowhere (why : Fault)
  deriving DecidableEq, Repr

namespace FileTree

def nameLimit : Nat := 255

def pathLimit : Nat := 4095

/-- The name `/`, as the first part of an absolute path. -/
def top : FileName := [47]

def here : FileName := [46]

def above : FileName := [46, 46]

def nameOf (name : String) : FileName := name.toList.flatMap String.utf8EncodeChar

/-- The file that is always empty: what is written to it is lost. -/
def nullDevice : List FileName := [top, nameOf "dev", nameOf "null"]

def enter (folder : List FileName) (part : FileName) : List FileName :=
  if part = [] ∨ part = here then folder
  else if part = above then
    match folder.getLast? with
    | none => folder ++ [above]
    | some last =>
      if last = above then folder ++ [above] else if last = top then folder else folder.dropLast
  else folder ++ [part]

def origin (path : List UInt8) : List FileName := if path.head? = some 47 then [top] else []

/-- The path of what a path names, and of the directories that it leads through. -/
def resolve (path : List UInt8) : List FileName × List (List FileName) :=
  (cutAt 47 path).foldl (fun (folder, passed) part => (enter folder part, folder :: passed))
    (origin path, [])

/-- Puts a file in the place of the one of its name, else at the end. -/
def putFile (path : List FileName) (content : List UInt8) :
    List (List FileName × List UInt8) → List (List FileName × List UInt8)
  | [] => [(path, content)]
  | (p, c) :: rest =>
    if p = path then (path, content) :: rest else (p, c) :: putFile path content rest

/-- A tree of the given directories and files. Every directory that one of their paths leads through
exists too. -/
def ofLists (files : List (List UInt8 × List UInt8)) (folders : List (List UInt8)) : FileTree where
  files := files.foldl (fun known (path, content) => putFile (resolve path).1 content known) []
  folders :=
    (folders.flatMap fun f => (resolve f).1 :: (resolve f).2) ++ files.flatMap fun f => (resolve f.1).2

def follow (tree : FileTree) (folder : List FileName) : List FileName → Destination
  | [] => .folder
  | part :: rest =>
    let path := enter folder part
    let last := rest.all (·.isEmpty)
    if part = [] ∨ part = here ∨ part = above then follow tree path rest
    else if nameLimit < part.length then
      if last then .overlong (!rest.isEmpty) else .nowhere .nameTooLong
    else if tree.folders.contains path then follow tree path rest
    else
      match tree.files.lookup path with
      | some content => if last then .file path content (!rest.isEmpty) else .nowhere .notDirectory
      | none => if last then .vacant path (!rest.isEmpty) else .nowhere .fileNotFound

def findBytes (tree : FileTree) (path : List UInt8) : Destination :=
  if path = [] then .nowhere .fileNotFound
  else if path.contains 0 then .nowhere .badPath
  else if pathLimit < path.length then .nowhere .nameTooLong
  else follow tree (origin path) (cutAt 47 path)

def find (tree : FileTree) (path : Text) : Destination :=
  match pathBytes path.toList with
  | .ok bytes => tree.findBytes bytes
  | .error e => .nowhere e

def bytes (tree : FileTree) (path : Text) : Except Fault (List UInt8) :=
  match tree.find path with
  | .file _ content false => .ok content
  | .file _ _ true => .error .notDirectory
  | .folder => .error .isDirectory
  | .vacant .. => .error .fileNotFound
  | .overlong _ => .error .nameTooLong
  | .nowhere why => .error why

def read (tree : FileTree) : FileReader := fun path => do
  textOfFile (← tree.bytes path)

/-- Writes at the end of the file at a path, which is made if need be. -/
def append (tree : FileTree) (path : Text) (content : List UInt8) : Except Fault FileTree :=
  match tree.find path with
  | .file p old false =>
    if p = nullDevice then .ok tree
    else .ok { tree with files := putFile p (old ++ content) tree.files }
  | .vacant p false => .ok { tree with files := putFile p content tree.files }
  | .overlong false => .error .nameTooLong
  | .file _ _ true | .vacant _ true | .overlong true | .folder => .error .isDirectory
  | .nowhere why => .error why

end FileTree

end LittleMan
