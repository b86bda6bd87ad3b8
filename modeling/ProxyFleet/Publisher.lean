import ProxyFleet.LinearHistories
import ProxyFleet.ObservedRuns
import ProxyFleet.ShareUrlParser
import ProxyFleet.StoreStatements

/-!
# The publisher and its clone

`publish` writes the snapshot, brings its clone up to the remote branch, writes the
two published files into the clone, commits them if they changed, and pushes. It can
stop at every step: a step fails, with or without its effect, or the process dies.
A commit is known by what it does to the published files. A git command takes effect
as a whole or not at all, except that a rebase can be left in progress, a push can
reach the remote without being noted, and a command that is killed can leave a half
clone or a lock file, which no later command gets past.
-/
namespace ProxyFleet

/-- The contents of the two published files, where they exist. -/
@[ext]
structure PublishedFiles where
  activeRaw : Option (List UInt8) := none
  active : Option (List UInt8) := none
  deriving DecidableEq

/-- The two renderings of one snapshot. -/
structure Feed where
  raw : List UInt8
  encoded : List UInt8
  deriving DecidableEq

def Feed.files (feed : Feed) : PublishedFiles := ⟨some feed.raw, some feed.encoded⟩

def render (configs : List Text) : Feed :=
  let raw := utf8Encode (['\n'].intercalate configs ++ ['\n'])
  ⟨raw, utf8Encode (Base64.encode Base64.standard true raw ++ ['\n'])⟩

/-- A commit that sets the published files, or one that leaves them alone. -/
inductive Commit where
  | published (files : PublishedFiles)
  | other (id : ℕ)
  deriving DecidableEq

def Commit.files? : Commit → Option PublishedFiles
  | .published files => some files
  | .other _ => none

/-- The published files after a history. -/
def tree (history : List Commit) : PublishedFiles :=
  (history.filterMap Commit.files?).getLast?.getD {}

/-- The clone of the publisher, as far as it concerns the published files. -/
structure Clone where
  tracking : List Commit
  head : List Commit
  index : PublishedFiles
  worktree : PublishedFiles
  rebasing : Bool

namespace Clone

/-- `git clone`. -/
def fresh (remote : List Commit) : Clone where
  tracking := remote
  head := remote
  index := tree remote
  worktree := tree remote
  rebasing := false

/-- A tracked file whose content in the working tree is not the one in the index. -/
def modified (index worktree : Option (List UInt8)) : Bool :=
  index.isSome && decide (worktree ≠ index)

/-- The index or a tracked file has changes that are not committed. -/
def uncommitted (r : Clone) : Bool :=
  decide (r.index ≠ tree r.head) || modified r.index.activeRaw r.worktree.activeRaw ||
    modified r.index.active r.worktree.active

/-- A checkout would overwrite a file that is not tracked. -/
def overwrites (target index worktree : Option (List UInt8)) : Bool :=
  target.isSome && index.isNone && worktree.isSome

/-- A file after the checkout of a commit. What is not tracked stays. -/
def checkout (target index worktree : Option (List UInt8)) : Option (List UInt8) :=
  match target with
  | some content => some content
  | none => if index.isSome then none else worktree

/-- The history that a rebase onto the remote branch makes. -/
def rebased (r : Clone) : List Commit := LinearHistories.rebase r.tracking r.head

/-- `git rebase` starts and finds nothing in its way. -/
def canRebase (r : Clone) : Bool :=
  !r.rebasing && !r.uncommitted &&
    !overwrites (tree r.rebased).activeRaw r.index.activeRaw r.worktree.activeRaw &&
    !overwrites (tree r.rebased).active r.index.active r.worktree.active

/-- `git rebase`, followed by `git rebase --abort` where it fails. -/
def rebaseOrAbort (r : Clone) : Clone :=
  if r.canRebase then
    { r with
      head := r.rebased
      index := tree r.rebased
      worktree :=
        ⟨checkout (tree r.rebased).activeRaw r.index.activeRaw r.worktree.activeRaw,
          checkout (tree r.rebased).active r.index.active r.worktree.active⟩ }
  else { r with rebasing := false }

/-- `git commit` makes no commit without a change. -/
def canCommit (r : Clone) : Bool := decide (r.index ≠ tree r.head)

def commit (r : Clone) : Clone :=
  if r.canCommit then { r with head := r.head ++ [.published r.index] } else r

end Clone

inductive PublishPhase where
  | snapshotRaw | snapshotEncoded | preparing
  | fetching | rebasing
  | writingRaw | writingEncoded | adding | committing
  | counting | pushing
  | refetching | rerebasing | repushing
  deriving DecidableEq

/-- A git command that changes the repository of the publisher. -/
def PublishPhase.changesRepository : PublishPhase → Bool
  | .snapshotRaw | .snapshotEncoded | .writingRaw | .writingEncoded | .counting => false
  | _ => true

structure PublishResult where
  activeCount : ℕ
  changed : Bool
  committed : Bool
  pushed : Bool
  deriving DecidableEq

/-- A call of `publish` in progress, with its local variables. -/
structure PublishCall where
  configs : List Text
  nonempty : configs ≠ []
  phase : PublishPhase
  changed : Bool := false
  repoChanged : Bool := false
  committed : Bool := false

def PublishCall.feed (call : PublishCall) : Feed := render call.configs

/-- The remote branch, what the publisher keeps on disk, its call in progress and the
result of its last call. The repository is jammed by what a killed command has left in it:
the `.git` of a half clone, which is not cloned again, or a lock. -/
structure Publisher where
  remote : List Commit
  snapshotDir : PublishedFiles
  clone : Option Clone
  jammed : Bool
  call : Option PublishCall
  result : Option PublishResult

/-- How much of a step took place that failed or was cut off. -/
inductive Outcome where
  | untouched
  | completed
  | interrupted
  | jammed
  deriving DecidableEq

inductive PublishEvent where
  | begin (snapshot : PublicationSnapshot)
  | advance
  | fail (outcome : Outcome)
  | crash (outcome : Outcome)
  | others (ids : List ℕ)

/-- What follows a step: the next one, or the end of the call. -/
inductive Control where
  | next (call : PublishCall)
  | finish (result : Option PublishResult)

namespace Publisher

def initial (remote : List Commit) (snapshotDir : PublishedFiles) : Publisher where
  remote := remote
  snapshotDir := snapshotDir
  clone := none
  jammed := false
  call := none
  result := none

def onClone (s : Publisher) (f : Clone → Clone) : Publisher := { s with clone := s.clone.map f }

/-- `git push` is accepted if it only adds commits. -/
def canPush (s : Publisher) : Bool := s.clone.any fun r => s.remote.isPrefixOf r.head

def push (s : Publisher) : Publisher :=
  match s.clone with
  | some r =>
    if s.remote.isPrefixOf r.head then
      { s with remote := r.head, clone := some { r with tracking := r.head } }
    else s
  | none => s

/-- What the current step does to the files and the repositories. -/
def effect (s : Publisher) (call : PublishCall) : Publisher :=
  match call.phase with
  | .snapshotRaw => { s with snapshotDir := { s.snapshotDir with activeRaw := some call.feed.raw } }
  | .snapshotEncoded =>
    { s with snapshotDir := { s.snapshotDir with active := some call.feed.encoded } }
  | .preparing => { s with clone := some (s.clone.getD (.fresh s.remote)) }
  | .fetching | .refetching => s.onClone fun r => { r with tracking := s.remote }
  | .rebasing | .rerebasing => s.onClone Clone.rebaseOrAbort
  | .writingRaw =>
    s.onClone fun r => { r with worktree := { r.worktree with activeRaw := some call.feed.raw } }
  | .writingEncoded =>
    s.onClone fun r => { r with worktree := { r.worktree with active := some call.feed.encoded } }
  | .adding => s.onClone fun r => { r with index := r.worktree }
  | .committing => s.onClone Clone.commit
  | .counting => s
  | .pushing | .repushing => s.push

/-- The current step is a command that the jammed repository refuses. -/
def refuses (s : Publisher) (call : PublishCall) : Bool :=
  s.jammed && call.phase.changesRepository

/-- The current step succeeds, as long as it does not fail by itself. -/
def succeeds (s : Publisher) (call : PublishCall) : Bool :=
  match call.phase with
  | .rebasing | .rerebasing => s.clone.any Clone.canRebase
  | .committing => s.clone.any Clone.canCommit
  | .pushing | .repushing => s.canPush
  | _ => true

def finished (call : PublishCall) (pushed : Bool) : Control :=
  .finish (some ⟨call.configs.length, call.changed, call.committed, pushed⟩)

/-- What follows a step that succeeds in the state `s`. A file counts as changed if it did
not have the new content before. -/
def proceed (s : Publisher) (call : PublishCall) : Control :=
  let files := (s.clone.map Clone.worktree).getD {}
  match call.phase with
  | .snapshotRaw =>
    .next { call with
      phase := .snapshotEncoded
      changed := decide (s.snapshotDir.activeRaw ≠ some call.feed.raw) }
  | .snapshotEncoded =>
    .next { call with
      phase := .preparing
      changed := call.changed || decide (s.snapshotDir.active ≠ some call.feed.encoded) }
  | .preparing => .next { call with phase := .fetching }
  | .fetching => .next { call with phase := .rebasing }
  | .rebasing => .next { call with phase := .writingRaw }
  | .writingRaw =>
    .next { call with
      phase := .writingEncoded
      repoChanged := decide (files.activeRaw ≠ some call.feed.raw) }
  | .writingEncoded =>
    if call.repoChanged || decide (files.active ≠ some call.feed.encoded) then
      .next { call with phase := .adding, repoChanged := true }
    else .next { call with phase := .counting }
  | .adding => .next { call with phase := .committing }
  | .committing => .next { call with phase := .counting, committed := true }
  | .counting =>
    if s.clone.any fun r => !(LinearHistories.ahead r.tracking r.head).isEmpty then
      .next { call with phase := .pushing }
    else finished call false
  | .pushing | .repushing => finished call true
  | .refetching => .next { call with phase := .rerebasing }
  | .rerebasing => .next { call with phase := .repushing }

/-- What follows a step that fails: a retry after the first push, or the end. -/
def refuse (call : PublishCall) : Control :=
  match call.phase with
  | .pushing => .next { call with phase := .refetching }
  | _ => .finish none

def control (s : Publisher) : Control → Publisher
  | .next call => { s with call := some call }
  | .finish result => { s with call := none, result := result }

/-- What a step leaves behind that was cut off. -/
def leave (s : Publisher) (call : PublishCall) (outcome : Outcome) : Publisher :=
  if s.refuses call then s else
  match outcome with
  | .untouched => s
  | .completed => s.effect call
  | .interrupted =>
    match call.phase with
    | .rebasing | .rerebasing => s.onClone fun r => { r with rebasing := true }
    | .pushing | .repushing => { s.push with clone := s.clone }
    | _ => s
  | .jammed => { s with jammed := s.jammed || call.phase.changesRepository }

/-- A rebase that failed is aborted. -/
def abort (s : Publisher) (call : PublishCall) : Publisher :=
  match call.phase with
  | .rebasing | .rerebasing => s.onClone fun r => { r with rebasing := false }
  | _ => s

def step (s : Publisher) : PublishEvent → Publisher
  | .begin snapshot =>
    match s.call with
    | some _ => s
    | none =>
      if hempty : snapshot.rawConfigs = [] then { s with result := some ⟨0, false, false, false⟩ }
      else
        { s with
          call := some ⟨snapshot.rawConfigs, hempty, .snapshotRaw, false, false, false⟩
          result := none }
  | .advance =>
    match s.call with
    | some call =>
      if s.refuses call then s.control (refuse call)
      else (s.effect call).control (if s.succeeds call then s.proceed call else refuse call)
    | none => s
  | .fail outcome =>
    match s.call with
    | some call => ((s.leave call outcome).abort call).control (refuse call)
    | none => s
  | .crash outcome =>
    match s.call with
    | some call => { s.leave call outcome with call := none, result := none }
    | none => s
  | .others ids => { s with remote := s.remote ++ ids.map .other }

end Publisher

end ProxyFleet
