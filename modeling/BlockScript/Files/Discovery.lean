import BlockScript.Files.FileTree
import BlockScript.Manifest.Basic

namespace BlockScript

/-! # Discovery

Finding the scripts that a command works on. A path to a file is taken as it is; anything else is
walked, links followed, for files with the extension of scripts. Whatever cannot be reached is
skipped. The result is in the order of paths, and of paths with equal components the first stays.
-/

/-- Whether the path has the extension of scripts. -/
def isScript (p : Path) : Bool := p.extension? == some "blocks".toList

namespace FileTree

/-- The files below a directory that a path leads to, as seen from it. Directories and links are
looked up by the whole path from the root of the walk, so a walk ends where such a path gets too
long. `opened` holds the directories on the way here: a link back to one of them is not followed. -/
def walk (t : FileTree) : Nat → List Place → Path → List Path
  | 0, _, _ => []
  | fuel + 1, opened, shown =>
    match t.directory? shown with
    | none => []
    | some place =>
      (t.children place).flatMap fun (name, entry) =>
        let path := shown.join ⟨name⟩
        match entry with
        | .file _ => [path]
        | .directory => t.walk fuel ((place ++ [name]) :: opened) path
        | .link _ =>
          match t.find? path with
          | .ok (_, .file _) => [path]
          | .ok (goal, .directory) =>
            if opened.contains goal then [] else t.walk fuel (goal :: opened) path
          | _ => []

/-- Steps down that suffice for every walk: each link on the way opens a new directory, and between
two of them a walk goes down at most once per entry. -/
def walkFuel (t : FileTree) : Nat := (t.entries.length + 2) * (t.entries.length + 2)

/-- All files that a path leads to, as seen from it. -/
def filesBelow (t : FileTree) (root : Path) : List Path :=
  match t.directory? root with
  | some place => t.walk t.walkFuel [place] root
  | none => []

/-- The scripts that one path leads to, in no particular order. -/
def scriptsAt (t : FileTree) (m : Manifest) (root : Path) : List Path :=
  if t.isFile root then [root]
  else (t.filesBelow root).filter fun p => isScript p && !m.isExcluded p

end FileTree

/-- The scripts that the paths lead to. -/
def FileTree.findScripts (t : FileTree) (m : Manifest) (roots : List Path) : List Path :=
  ((roots.flatMap (t.scriptsAt m)).mergeSort Path.le).eraseRepsBy Path.same

end BlockScript
