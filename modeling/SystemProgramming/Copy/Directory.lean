import SystemProgramming.Copy.Pipeline
import SystemProgramming.Lib.CText

set_option autoImplicit false

/-! # `copy_directory`

`manager.c` of the copy programs, one system call at a time. The recursion of `copy_directory` is a
stack of its loops that are still open, the innermost first; `Walk.next` is the next call of the
manager and what it does with each reply. When a call fails the manager destroys the buffer and
exits, whatever the other threads are doing. The two homeworks differ where the destination file
does not open: HW4 closes the source file before that.

Each call of `copy_directory` keeps two `char[PATH_MAX]` on the stack of the manager's thread. How
many calls that stack holds is a parameter; one more is a SIGSEGV (`Walk.overflows`).

`δ` is what a `DIR *` refers to and `φ` a file descriptor: the directory walk leaves both to the
environment that answers its calls. -/

namespace SystemProgramming.Copy

variable {δ φ : Type}

/-! ## Calls and replies -/

/-- `PATH_MAX`. -/
def pathMax : ℕ := 4096

/-- `snprintf(path, PATH_MAX, "%s/%s", dir, name)`: the buffer ends with a NUL, so what does not fit
    is cut off. -/
def joinPath (dir name : Text) : Text := (dir ++ '/' :: name).take (pathMax - 1)

theorem joinPath_eq {dir name : Text} (h : (dir ++ '/' :: name).length < pathMax) :
    joinPath dir name = dir ++ '/' :: name :=
  List.take_of_length_le (by omega)

/-- `struct dirent`: `d_name`, and whether `d_type` is `DT_DIR`. -/
structure Dirent where
  name : Text
  isDir : Bool
deriving DecidableEq

/-- `BufferElement`. -/
structure BufferElement (φ : Type) where
  srcFd : φ
  destFd : φ
  filename : Text
deriving DecidableEq

/-- The 255 characters that `strncpy` copies into `item.filename`. -/
def itemName (name : Text) : Text := name.take 255

/-- What `mkdir` answers. -/
inductive MkdirResult
  | made
  /-- -1 with `errno` `EEXIST` -/
  | eexist
  /-- -1 with another `errno` -/
  | failed
deriving DecidableEq

/-- The calls of `copy_directory`. -/
inductive SysCall (δ φ : Type)
  | opendir (path : Text)
  | mkdir (path : Text)
  | readdir (dir : δ)
  | closedir (dir : δ)
  /-- `open(path, O_RDONLY)` -/
  | openSrc (path : Text)
  /-- `open(path, O_WRONLY | O_CREAT | O_TRUNC, 0644)` -/
  | openDest (path : Text)
  | close (fd : φ)
  /-- `buffer_push(buffer, item)`, as often as it takes -/
  | push (item : BufferElement φ)
  | destroyBuffer
  /-- `exit(EXIT_FAILURE)` -/
  | exit

/-- What a call answers; `none` is `NULL` or -1. A `DIR *` is updated by `readdir`. -/
def Reply : SysCall δ φ → Type
  | .opendir _ => Option δ
  | .mkdir _ => MkdirResult
  | .readdir _ => Option Dirent × δ
  | .openSrc _ | .openDest _ => Option φ
  | .closedir _ | .close _ | .push _ | .destroyBuffer | .exit => Unit

/-! ## The walk -/

/-- A call of `copy_directory` that is in its loop. -/
structure Frame (δ : Type) where
  dir : δ
  srcDir : Text
  destDir : Text

/-- Where the innermost call of `copy_directory` is. -/
inductive WalkPC (δ φ : Type)
  /-- at its start -/
  | opening (srcDir destDir : Text)
  /-- about to make the destination directory -/
  | making (dir : δ) (srcDir destDir : Text)
  /-- in the condition of its loop; with no loop open the walk is over -/
  | reading
  | openingSrc (srcPath destPath name : Text)
  | openingDest (srcFd : φ) (destPath name : Text)
  /-- the destination file did not open (HW4) -/
  | closingSrc (srcFd : φ)
  | pushing (item : BufferElement φ)
  /-- `readdir` has answered `NULL` -/
  | closing (dir : δ)
  /-- a call has failed, with these descriptors not yet in an item: before `destroy_buffer` -/
  | destroying (left : List φ)
  /-- between `destroy_buffer` and `exit` -/
  | destroyed (left : List φ)
  | exited (left : List φ)
  /-- a thread has used the destroyed buffer: anything may happen -/
  | undefined (left : List φ)

/-- The manager in `copy_directory`: the innermost call, and the loops that are open. -/
structure Walk (δ φ : Type) where
  pc : WalkPC δ φ
  loops : List (Frame δ)

/-- `copy_directory(src_dir, dest_dir, buffer)`. -/
def copyDirectory (srcDir destDir : Text) : Walk δ φ := ⟨.opening srcDir destDir, []⟩

namespace Walk

/-- `copy_directory` has returned to `manager_function`. -/
def isOver : Walk δ φ → Bool
  | ⟨.reading, []⟩ => true
  | _ => false

/-- The call of `copy_directory` that is to begin does not fit on a stack for `stack` calls. -/
def overflows (stack : ℕ) : Walk δ φ → Bool
  | ⟨.opening _ _, loops⟩ => stack ≤ loops.length
  | _ => false

/-- The buffer is destroyed, and the process has not ended. -/
def isDestroyed : Walk δ φ → Bool
  | ⟨.destroyed _, _⟩ => true
  | _ => false

/-- The process has ended, or its behaviour is undefined. -/
def hasEnded (stack : ℕ) (w : Walk δ φ) : Bool :=
  match w.pc with
  | .exited _ | .undefined _ => true
  | _ => w.overflows stack

/-- The manager destroys the buffer while other threads use it, or they use it afterwards. -/
def breakDown (w : Walk δ φ) : Walk δ φ :=
  match w.pc with
  | .destroying left | .destroyed left => { w with pc := .undefined left }
  | _ => w

/-- The body of the loop, up to its first call. -/
def onEntry (f : Frame δ) (entry : Dirent) : WalkPC δ φ :=
  if entry.name ≠ ['.'] ∧ entry.name ≠ ['.', '.'] then
    let srcPath := joinPath f.srcDir entry.name
    let destPath := joinPath f.destDir entry.name
    if entry.isDir then .opening srcPath destPath
    else .openingSrc srcPath destPath entry.name
  else .reading

/-- The next call of the manager, and how it goes on with the reply. -/
def next (v : Version) (w : Walk δ φ) : Option ((c : SysCall δ φ) × (Reply c → Walk δ φ)) :=
  match w.pc with
  | .opening srcDir destDir => some ⟨.opendir srcDir, fun dir : Option δ =>
      match dir with
      | none => { w with pc := .destroying [] }
      | some dir => { w with pc := .making dir srcDir destDir }⟩
  | .making dir srcDir destDir => some ⟨.mkdir destDir, fun result : MkdirResult =>
      match result with
      | .failed => { w with pc := .destroying [] }
      | .made | .eexist => { pc := .reading, loops := ⟨dir, srcDir, destDir⟩ :: w.loops }⟩
  | .reading =>
      match w.loops with
      | [] => none
      | f :: rest => some ⟨.readdir f.dir, fun reply : Option Dirent × δ =>
          match reply with
          | (none, dir) => { pc := .closing dir, loops := rest }
          | (some entry, dir) => { pc := onEntry f entry, loops := { f with dir := dir } :: rest }⟩
  | .openingSrc srcPath destPath name => some ⟨.openSrc srcPath, fun fd : Option φ =>
      match fd with
      | none => { w with pc := .destroying [] }
      | some srcFd => { w with pc := .openingDest srcFd destPath name }⟩
  | .openingDest srcFd destPath name => some ⟨.openDest destPath, fun fd : Option φ =>
      match fd, v with
      | none, .hw4 => { w with pc := .closingSrc srcFd }
      | none, .hw5 => { w with pc := .destroying [srcFd] }
      | some destFd, _ => { w with pc := .pushing ⟨srcFd, destFd, itemName name⟩ }⟩
  | .closingSrc srcFd => some ⟨.close srcFd, fun _ => { w with pc := .destroying [] }⟩
  | .pushing item => some ⟨.push item, fun _ => { w with pc := .reading }⟩
  | .closing dir => some ⟨.closedir dir, fun _ => { w with pc := .reading }⟩
  | .destroying left => some ⟨.destroyBuffer, fun _ => { w with pc := .destroyed left }⟩
  | .destroyed left => some ⟨.exit, fun _ => { w with pc := .exited left }⟩
  | .exited _ | .undefined _ => none

end Walk

end SystemProgramming.Copy
