import RouteCosts.Assoc
import RouteCosts.Files.Path
import RouteCosts.Files.State

/-!
# Trees of files

What stands at every place, and where paths that do not begin at the root begin. A path is followed
step by step, and wherever a step starts there must be a directory. Writing gives a new tree;
`look_write` says that what was written is then found.
-/

namespace RouteCosts

/-- All files and directories, and the directory that paths start from. -/
structure FileTree where
  entries : List (Place × FileState)
  working : Place

namespace FileTree

/-- What stands at a place. The root is a directory always. -/
def state (tree : FileTree) (place : Place) : FileState :=
  if place = [] then .directory else (tree.entries.lookup place).getD .missing

/-- The tree in which something else stands at a place. -/
def put (tree : FileTree) (place : Place) (state : FileState) : FileTree :=
  { tree with entries := Assoc.insert place state tree.entries }

theorem state_put (tree : FileTree) {place : Place} (h : place ≠ []) (state : FileState)
    (other : Place) :
    (tree.put place state).state other = if other = place then state else tree.state other := by
  unfold put FileTree.state
  by_cases hr : other = []
  · simp [hr, Ne.symm h]
  · by_cases ho : other = place <;> simp [Assoc.lookup_insert, hr, ho, h]

/-- Where a path starts. -/
def start (tree : FileTree) (path : Path) : Place := if path.rooted then [] else tree.working

/-- The place that steps lead to. All places but the last must be directories. -/
def follow (tree : FileTree) (place : Place) : List Step → Except Fault Place
  | [] => .ok place
  | step :: rest =>
    match tree.state place with
    | .directory _ =>
      if step.isTooLong then .error .nameTooLong else follow tree (step.apply place) rest
    | .file _ _ => .error .notADirectory
    | .absent fault => .error fault

/-- The place that a path leads to. -/
def resolve (tree : FileTree) (path : Path) : Except Fault Place :=
  if path.isEmpty then .error .notFound else tree.follow (tree.start path) path.steps

/-- What stands at a path. -/
def look (tree : FileTree) (text : String) : FileState :=
  let path := Path.ofText text
  match tree.resolve path with
  | .error fault => .absent fault
  | .ok place =>
    match tree.state place with
    | .file contents modified =>
      if path.slashed then .absent .notADirectory else .file contents modified
    | state => state

/-- Write a file, which may be there already. -/
def write (tree : FileTree) (now : Moment) (text : String) (contents : List UInt8) :
    Except Fault FileTree :=
  let path := Path.ofText text
  match tree.resolve path with
  | .error fault => .error fault
  | .ok place =>
    if path.slashed ∨ (tree.state place).isDirectory then .error .isADirectory
    else .ok (tree.put place (.file contents now))

/-- Make all directories on a way that are not there yet. Those made before a fault stay. -/
def makeDirectories (tree : FileTree) (place : Place) : List Step → Except Fault Unit × FileTree
  | [] => (.ok (), tree)
  | step :: rest =>
    let next := step.apply place
    if step.isTooLong then (.error .nameTooLong, tree)
    else match tree.state next with
    | .directory _ => makeDirectories tree next rest
    | .file _ _ => (.error (if rest.isEmpty then .alreadyExists else .notADirectory), tree)
    | .absent _ => makeDirectories (tree.put next .directory) next rest

/-- Make the directory in which a path ends, and all directories above it. -/
def makeParent (tree : FileTree) (text : String) : Except Fault Unit × FileTree :=
  let path := Path.ofText text
  tree.makeDirectories (tree.start path) path.parentMoves

/-- The files that are not in an older tree, or have other contents there. -/
def changesSince (tree older : FileTree) : List (Place × List UInt8) :=
  tree.entries.filterMap fun (place, state) =>
    match state.contents? with
    | some contents =>
      if (older.state place).contents? = some contents then none else some (place, contents)
    | none => none

/-- Writing a file moves no place. -/
theorem follow_put_file {tree : FileTree} {place target : Place} {steps : List Step}
    (h : tree.follow place steps = .ok target) (ht : ¬ (tree.state target).isDirectory)
    (state : FileState) : (tree.put target state).follow place steps = .ok target := by
  have hroot : target ≠ [] := by
    rintro rfl
    exact ht rfl
  induction steps generalizing place with
  | nil => exact h
  | cons step rest ih =>
    rw [follow] at h ⊢
    cases hs : tree.state place with
    | file contents modified => simp [hs] at h
    | absent fault => simp [hs] at h
    | directory stamp =>
      have hne : place ≠ target := by
        rintro rfl
        exact ht (by rw [hs]; rfl)
      rw [hs] at h
      rw [state_put tree hroot, if_neg hne, hs]
      by_cases hl : step.isTooLong
      · simp [hl] at h
      · simp only [hl, Bool.false_eq_true, if_false] at h ⊢
        exact ih h

/-- What was written is found. -/
theorem look_write {tree after : FileTree} {now : Moment} {text : String} {contents : List UInt8}
    (h : tree.write now text contents = .ok after) : after.look text = .file contents now := by
  unfold write at h
  unfold look
  cases hr : tree.resolve (Path.ofText text) with
  | error fault => simp [hr] at h
  | ok place =>
    simp only [hr] at h
    split at h
    · simp at h
    · next hn =>
      rw [not_or] at hn
      have hroot : place ≠ [] := by
        rintro rfl
        exact hn.2 rfl
      obtain rfl := Except.ok.inj h
      have hplace : (tree.put place (.file contents now)).resolve (Path.ofText text) =
          .ok place := by
        unfold resolve at hr ⊢
        split
        · next he => simp [he] at hr
        · next he =>
          rw [if_neg he] at hr
          exact follow_put_file hr hn.2 _
      simp [hplace, state_put tree hroot, hn.1]

end FileTree

end RouteCosts
