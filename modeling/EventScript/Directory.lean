/-!
# Directories

The files that a command sees, by their paths relative to one directory.  The
main statements say what can be read after a file is written: the file itself,
and every other file as before.
-/

namespace EventScript

/-- The place of a file or directory: the names that lead to it. -/
abbrev Place := List String

/-- The files below a directory. -/
structure Directory where
  files : List (Place × ByteArray) := []

namespace Directory

/-- Whether there is a directory at a place. -/
def hasDirectory (directory : Directory) (place : Place) : Bool :=
  place.isEmpty || directory.files.any fun entry =>
    place.isPrefixOf entry.1 && place.length < entry.1.length

/-- Follow one name of a path.  Two dots lead back out of an existing
directory, but never out of the outermost one. -/
def follow (directory : Directory) (place : Place) (name : String) : Option Place :=
  match name with
  | "" | "." => some place
  | ".." => if !place.isEmpty && directory.hasDirectory place then some place.dropLast else none
  | _ => some (place ++ [name])

/-- Whether a path can be used at all: it is shorter than 4096 bytes, and each
of its names has at most 255. -/
def isUsable (path : String) : Bool :=
  path.utf8ByteSize < 4096 && (path.splitOn "/").all fun name => name.utf8ByteSize ≤ 255

/-- The place that a path leads to.  A path that is absolute, or whose last name
can only be that of a directory, leads to no file. -/
def resolve? (directory : Directory) (path : String) : Option Place :=
  let names := path.splitOn "/"
  if !isUsable path || names.head? = some "" ||
      (["", ".", ".."].contains (names.getLastD "")) then none
  else names.foldlM directory.follow []

/-- The contents of a file. -/
def read? (directory : Directory) (path : String) : Option ByteArray :=
  (directory.resolve? path).bind fun place => directory.files.lookup place

/-- Put a file in the place of an old one, or behind all others. -/
def put (place : Place) (contents : ByteArray) :
    List (Place × ByteArray) → List (Place × ByteArray)
  | [] => [(place, contents)]
  | entry :: rest =>
    if entry.1 = place then (place, contents) :: rest else entry :: put place contents rest

theorem lookup_put_self (place : Place) (contents : ByteArray)
    (files : List (Place × ByteArray)) :
    (put place contents files).lookup place = some contents := by
  induction files with
  | nil => simp [put]
  | cons entry rest ih =>
    obtain ⟨key, value⟩ := entry
    by_cases same : key = place
    · simp [put, same]
    · have unlike : (place == key) = false := beq_eq_false_iff_ne.mpr (Ne.symm same)
      simp [put, same, List.lookup_cons, unlike, ih]

theorem lookup_put_of_ne {place other : Place} (different : other ≠ place)
    (contents : ByteArray) (files : List (Place × ByteArray)) :
    (put place contents files).lookup other = files.lookup other := by
  have unlike : (other == place) = false := beq_eq_false_iff_ne.mpr different
  induction files with
  | nil => simp [put, List.lookup_cons, unlike]
  | cons entry rest ih =>
    obtain ⟨key, value⟩ := entry
    by_cases same : key = place
    · simp [put, same, List.lookup_cons, unlike]
    · simp [put, same, List.lookup_cons, ih]

/-- Write a file.  The directory it is in must exist, and no directory may
stand in its place, nor a file on the way to it. -/
def write? (directory : Directory) (path : String) (contents : ByteArray) : Option Directory :=
  (directory.resolve? path).bind fun place =>
    if directory.hasDirectory place.dropLast && !directory.hasDirectory place then
      some ⟨put place contents directory.files⟩
    else none

end Directory

end EventScript
