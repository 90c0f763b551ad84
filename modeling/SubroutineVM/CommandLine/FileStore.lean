import SubroutineVM.CommandLine.Location

/-!
The files that a command sees: their contents by location, and the directories in which a file can
be made. Main statement: what is written is read back, by any path to the same place
(`read?_write?`).
-/
namespace SubroutineVM

structure FileStore where
  files : List (Location × ByteArray)
  directories : List (List String)

namespace FileStore

def ofFiles (files : List (String × ByteArray)) : FileStore :=
  ⟨files.map fun (path, content) => (.ofPath path, content), [[]]⟩

def read? (store : FileStore) (path : String) : Option ByteArray :=
  store.files.lookup (.ofPath path)

def write? (store : FileStore) (path : String) (content : ByteArray) : Option FileStore :=
  let location := Location.ofPath path
  if location.namesFile ∧ location.directory ∈ store.directories then
    some { store with files := (location, content) :: store.files.filter (·.1 ≠ location) }
  else none

theorem read?_write? {store after : FileStore} {path other : String} {content : ByteArray}
    (h : store.write? path content = some after)
    (same : Location.ofPath other = Location.ofPath path) :
    after.read? other = some content := by
  simp only [write?] at h
  split at h
  · cases h
    simp [read?, same]
  · cases h

end FileStore

end SubroutineVM
