import Nits.ClientCore.State

/-!
# Content flow

How the core gets trees, render headers and chunks into the cache. Every want goes one
way: on hand, else from the host's disk tier, else queued and sent to the daemon while
a slot is free.
-/

set_option linter.dupNamespace false

namespace Nits.ClientCore

open Logical Logical.Handler Protocol

/-- How many chunks either side of the viewport chunk are prefetched. -/
def PREFETCH_RADIUS : Nat := 2

def PAGE_ROWS : Nat := 60

/-! ## Requests -/

/-- The state with a request sent and its answer awaited. -/
def ClientCore.asked (core : ClientCore) (request : Request) (waiting : InFlight) : ClientCore :=
  let id := core.nextRequest
  { core with
    nextRequest := id + 1
    latestOpen := match waiting with
      | .openReview .. | .reviewSnapshot _ => some id
      | _ => core.latestOpen
    latestSearch := match waiting with
      | .search => some id
      | _ => core.latestSearch
    snapshotEvents := match request with
      | .openReview reviewId _ | .reviewSnapshot reviewId =>
        core.snapshotEvents ++ [(id, reviewId, [])]
      | _ => core.snapshotEvents
    latestFiles := match request with
      | .listFiles .. => some id
      | _ => core.latestFiles
    latestCommits := match request with
      | .listCommits .. => some id
      | _ => core.latestCommits
    inFlight := core.inFlight ++ [(id, waiting)] }

/-- Send a request; its answer is routed by what waits for it. -/
def request (request : Request) (waiting : InFlight) : Client Unit := fun core =>
  ⟨.ok (), [.send (.request core.nextRequest request)], core.asked request waiting⟩

/-- Change where the user is. -/
def panels (change : Panels → Panels) : Client Unit :=
  write fun core => { core with panels := change core.panels }

/-- Change which file of the open review is shown, and over which rows. -/
def showFile (openFile : Option OpenFile) (original : Option RenderKey) : Client Unit :=
  write fun core => { core with
    view.review := core.view.review.map fun review => { review with openFile, original } }

def render (sections : List ViewSection) : Client Unit := order (.render sections)

section Content

variable [Presentation]

/-! ## The cache and the disk tier -/

/-- Put the disk tier's index, and remove what it let go. -/
def putDisk (touched : DiskIndex × List CacheKey) : Client Unit := do
  write fun core => { core with content.disk := some touched.1 }
  each (fun key => order (.remove (Presentation.storageKey key))) touched.2

/-- Write an entry to disk, when the tier is on, and trim the tier to its budget. -/
def persist (key : CacheKey) (value : CacheValue) : Client Unit := do
  let core ← read
  match core.content.disk with
  | none => pure ()
  | some disk => do
    let bytes := Presentation.encode value
    putDisk (disk.touch key bytes.length)
    order (.persist (Presentation.storageKey key) bytes)

/-- Evictions are on disk already and are touched there; those that this session's
index does not know are written again. -/
def writeThrough (evicted : List Evicted) : Client Unit :=
  each (fun gone => do
    let core ← read
    match core.content.disk with
    | none => pure ()
    | some disk =>
      if disk.sizes.any fun entry => entry.1 = gone.key then
        putDisk (disk.touch gone.key gone.size)
      else persist gone.key gone.value) evicted

/-- Put the memory cache and write through what it evicted. -/
def putCache (changed : ContentCache × List Evicted) : Client Unit := do
  write fun core => { core with content.cache := changed.1 }
  writeThrough changed.2

def pin (key : CacheKey) : Client Unit :=
  write fun core => { core with content.cache := core.content.cache.pin key }

/-- The key is not wanted any more. -/
def contentFailed (key : CacheKey) : Client Unit :=
  write fun core => { core with
    content.pending := core.content.pending.filter fun entry => entry.1 ≠ key }

/-! ## Wanting -/

/-- The request that a fetch makes. A recorded original diff is not in the review's
file list, so the daemon renders its change directly. -/
def ClientCore.requestFor (core : ClientCore) : Fetch → Request × InFlight
  | .tree key refSpec => (.treeSnapshot key.repoId refSpec, .treeSnapshot key)
  | .render reviewId key firstChunk stopAfter =>
    let shown := core.view.review.filter fun review => review.snapshot.review.id = reviewId
    let original := shown.any fun review => review.original = some key
    let scope := match shown with
      | some review => review.scope
      | none => .all
    let request := match key.target, original with
      | .diff change, true => .changeRender key.repoId key.path change key.opts firstChunk
      | .blob entry, _ => .blobRender key.repoId key.path entry firstChunk
      | .diff _, false => .fileRender reviewId key.repoId key.path key.opts firstChunk scope
    (request, .fileRender key stopAfter)
  | .chunk key index =>
    (.renderChunk key.repoId key.path key.target key.opts index, .renderChunk (.chunk key index))

/-- The pending keys with one key where it is now. -/
def markWanted (pending : List (CacheKey × Wanted)) (key : CacheKey) (wanted : Wanted) :
    List (CacheKey × Wanted) :=
  (key, wanted) :: pending.filter fun entry => entry.1 ≠ key

/-- Take the first queued fetch into a slot and send it. -/
def issue (fetch : Fetch) (later : List Fetch) : Client Unit := fun core =>
  let (asking, waiting) := core.requestFor fetch
  request asking waiting { core with
    content.queue := later
    content.pending := markWanted core.content.pending fetch.key .requested
    content.inFlight := core.content.inFlight + 1 }

/-- Send at most so many queued fetches while slots are free. -/
def drainUpTo : Nat → Client Unit
  | 0 => pure ()
  | count + 1 => do
    let core ← read
    if core.content.inFlight < core.content.config.maxInFlight then
      match core.content.queue with
      | [] => pure ()
      | fetch :: later => do
        issue fetch later
        drainUpTo count
    else pure ()

/-- Send queued fetches while slots are free. -/
def drain : Client Unit := do
  let core ← read
  drainUpTo core.content.queue.length

def queueUp (fetch : Fetch) : Client Unit :=
  write fun core => { core with
    content.pending := markWanted core.content.pending fetch.key .queued
    content.queue := core.content.queue ++ [fetch] }

def enqueue (fetch : Fetch) : Client Unit := do
  queueUp fetch
  drain

/-- Ask the host for a stored value. -/
def load (fetch : Fetch) : Client Unit := do
  let storage := Presentation.storageKey fetch.key
  write fun core => { core with
    content.loads :=
      (storage, fetch.key) :: core.content.loads.filter fun entry => entry.1 ≠ storage
    content.pending := markWanted core.content.pending fetch.key (.loading fetch) }
  order (.load storage)

/-- Ensure that the key of a fetch is or will be cached; whether it was already. -/
def want (fetch : Fetch) : Client Bool := do
  let core ← read
  if core.content.cache.contains fetch.key then return true
  else if core.content.pending.any fun entry => entry.1 = fetch.key then return false
  else if core.content.disk.isSome then do
    load fetch
    return false
  else do
    enqueue fetch
    return false

/-- A content request finished: its slot is free. -/
def contentDone : Client Unit := do
  write fun core => { core with content.inFlight := core.content.inFlight - 1 }
  drain

/-- Queued fetches outside `keep` are dropped before being sent. -/
def pruneQueue (keep : Fetch → Bool) : Client Unit :=
  write fun core => { core with
    content.queue := core.content.queue.filter keep
    content.pending := core.content.pending.filter fun entry =>
      ¬ (core.content.queue.filter fun fetch => ¬ keep fetch).any fun fetch =>
        fetch.key = entry.1 }

/-! ## Chunk windows -/

/-- A contiguous range of chunk indices, with the one the viewport starts in. -/
structure ChunkWindow where
  first : Nat
  last : Nat
  centre : Nat

namespace ChunkWindow

def around (header : FileRenderHeader) (firstRow lastRow : Nat) : Option ChunkWindow :=
  match header.content with
  | .text _ chunkRows chunkCount .. =>
    if chunkRows = 0 ∨ chunkCount = 0 then none
    else
      let max := chunkCount - 1
      let centre := min (firstRow / chunkRows) max
      let finish := min (lastRow / chunkRows) max
      some ⟨centre - PREFETCH_RADIUS, min (finish + PREFETCH_RADIUS) max, centre⟩
  | .binary | .submodule => none

def contains (window : ChunkWindow) (index : ChunkIndex) : Bool :=
  window.first ≤ index ∧ index ≤ window.last

/-- Indices nearest the viewport first. -/
def byDistance (window : ChunkWindow) : List ChunkIndex :=
  let away (index : Nat) : Nat := max index window.centre - min index window.centre
  (List.range' window.first (window.last + 1 - window.first)).insertionSort fun left right =>
    away left < away right ∨ (away left = away right ∧ left ≤ right)

end ChunkWindow

def headerOf (cache : ContentCache) (key : RenderKey) : Option FileRenderHeader :=
  match cache.peek (.header key) with
  | some (.header header) => some header
  | _ => none

namespace ClientCore

def openFile (core : ClientCore) : Option OpenFile :=
  core.view.review.bind OpenReview.openFile

/-- The chunks the viewport on a render covers, if the file is open and has rows. -/
def viewportWindow (core : ClientCore) (key : RenderKey) : Option ChunkWindow :=
  match core.openFile.filter fun file => file.render = key, headerOf core.content.cache key with
  | some file, some header => ChunkWindow.around header file.firstRow file.lastRow
  | _, _ => none

/-- Whether the open review still needs a pinned key. -/
def needsPin (core : ClientCore) (key : CacheKey) : Bool :=
  match core.view.review with
  | none => false
  | some review => match key with
    | .tree tree => review.trees.contains tree
    | .header _ => true
    | .chunk render _ => review.openFile.any fun file => file.render = render

/-- The pins that the open review and its open file keep. -/
def keepsPin (core : ClientCore) (key : CacheKey) : Bool :=
  match core.view.review with
  | none => false
  | some review => match key with
    | .tree tree => review.trees.contains tree
    | .header render => review.files.contains render ∨ review.original = some render ∨
        review.openFile.any fun file => file.render = render
    | .chunk render _ => review.openFile.any fun file => file.render = render

end ClientCore

def retainReviewPins : Client Unit := do
  let core ← read
  putCache (core.content.cache.retainPins core.keepsPin)

def wantEach (fetches : List Fetch) : Client Unit :=
  each (fun fetch => do
    let _ ← want fetch
    pure ()) fetches

def wantViewportChunks (key : RenderKey) : Client Unit := do
  let core ← read
  match core.viewportWindow key with
  | none => pure ()
  | some window => wantEach (window.byDistance.map fun index => .chunk key index)

/-- After a header is known: the open file's window, or the first chunk of a review
file for prefetch. -/
def wantChunksFor (key : RenderKey) (header : FileRenderHeader) : Client Unit := do
  let core ← read
  match header.content with
  | .text _ _ chunkCount .. =>
    if chunkCount = 0 then pure ()
    else if core.openFile.any fun file => file.render = key then wantViewportChunks key
    else if core.view.review.any fun review => review.files.contains key then
      wantEach [.chunk key ChunkIndex.FIRST]
    else pure ()
  | .binary | .submodule => pure ()

/-! ## Arrivals -/

/-- How a value reached the cache; decides writing through and follow-ups. -/
inductive Arrival
  | stream | disk | response
  deriving DecidableEq

/-- Put an arrived value in the cache, pinned if the review needs it. -/
def insertArrived (key : CacheKey) (value : CacheValue) : Client Unit := do
  let core ← read
  putCache (core.content.cache.insert key value (Presentation.encode value).length)

/-- A value reached the core. Inserts, pins, writes evictions through, renders what
changed and issues follow-up wants. -/
def arrived (key : CacheKey) (value : CacheValue) (via : Arrival) : Client Unit := do
  contentFailed key
  let core ← read
  if core.needsPin key then pin key else pure ()
  if via = .disk then pure () else persist key value
  insertArrived key value
  match key, value with
  | .header of, .header header =>
    if via = .stream then pure () else wantChunksFor of header
  | .chunk of index, .chunk _ => do
    let core ← read
    if core.openFile.any (fun file => file.render = of) ∧
        (core.viewportWindow of).any (fun window => window.contains index) then
      render [.diff]
    else pure ()
  | _, _ => pure ()

/-- The host answered a load. -/
def stored (key : Key) (value : Option Bytes) : Risky Unit := do
  let core ← read
  match core.content.loads.lookup key with
  | none => fail (.unknownKey key)
  | some cacheKey => do
    let wanted := core.content.pending.lookup cacheKey
    always (forgetLoad key cacheKey)
    match wanted with
    | some (.loading fetch) => always (loaded key cacheKey fetch value)
    | _ => pure ()
where
  forgetLoad (key : Key) (cacheKey : CacheKey) : Client Unit :=
    write fun core => { core with
      content.loads := core.content.loads.filter fun entry => entry.1 ≠ key
      content.pending := core.content.pending.filter fun entry => entry.1 ≠ cacheKey }
  loaded (key : Key) (cacheKey : CacheKey) (fetch : Fetch) : Option Bytes → Client Unit
    | none => enqueue fetch
    | some bytes => do
      let core ← read
      match (Presentation.decode bytes).filter fun found => found.matches cacheKey with
      | some found => do
        match core.content.disk with
        | none => pure ()
        | some disk => putDisk (disk.touch cacheKey bytes.length)
        arrived cacheKey found .disk
      | none => do
        -- Unreadable or the wrong shape: drop it and go to the daemon.
        match core.content.disk with
        | none => pure ()
        | some disk => putDisk (disk.forget cacheKey, [])
        order (.remove key)
        enqueue fetch

/-! ## The open review's content -/

/-- The ref that re-resolves to a resolved ref. -/
def refSpecOf (resolved : ResolvedRef) : RefSpec :=
  match resolved.source with
  | .commit oid => .commit oid
  | .workingTree .. => .workingTree

/-- The trees of the targets, each once, with the fetch that brings it. -/
def targetTrees (targets : List ResolvedTarget) : List Fetch :=
  (targets.flatMap fun target => [(target.repoId, target.base), (target.repoId, target.head)]).foldl
    (fun fetches (repoId, resolved) =>
      let key : TreeKey := ⟨repoId, resolved.tree⟩
      if fetches.any fun fetch => fetch.key = .tree key then fetches
      else fetches ++ [.tree key (refSpecOf resolved)]) []

/-- The keys of the trees that some fetches bring. -/
def treesOf (fetches : List Fetch) : List TreeKey :=
  fetches.filterMap fun fetch => match fetch with
    | .tree key _ => some key
    | .render .. | .chunk .. => none

/-- The open review's trees. -/
def setTrees (trees : List TreeKey) : Client Unit :=
  write fun core => { core with
    view.review := core.view.review.map fun review => { review with trees } }

/-- Pin the trees of the current targets and of the picked ref; `wanting` also
fetches them. -/
def reviewTrees (wanting : Bool) : Client Unit := do
  let core ← read
  match core.view.review with
  | none => pure ()
  | some review => do
    let fetches := targetTrees review.currentTargets
    let trees := treesOf fetches
    let picked := match core.browse with
      | none => []
      | some browse => [TreeKey.mk browse.target.repoId browse.root].filter fun key =>
          ¬ trees.contains key
    setTrees (trees ++ picked)
    retainReviewPins
    each (fun fetch => do
      pin fetch.key
      if wanting then wantEach [fetch] else pure ()) fetches

def wantReviewTrees : Client Unit := reviewTrees true

def expectStreamedTrees : Client Unit := reviewTrees false

/-- The review's snapshot is in the view; want its trees and its file list. -/
def reviewOpenedPiecewise (reviewId : ReviewId) : Client Unit := do
  wantReviewTrees
  let core ← read
  let scope := match core.view.review with
    | some review => review.scope
    | none => .all
  request (.listFiles reviewId scope) (.listFiles reviewId scope)

/-- A blob render key for a file outside the review's diff: from the picked ref's tree,
else from the repository's scoped head tree. -/
def ClientCore.blobRenderOf (core : ClientCore) (file : FileRef) : Option RenderKey := do
  let review ← core.view.review
  let headTree : Option TreeOid := (review.currentTargets.find? fun target =>
    target.repoId = file.repoId).map fun target => target.head.tree
  let root ← match core.panels.tab, core.browse.filter fun browse =>
      browse.target.repoId = file.repoId with
    | .browse, some browse => some browse.root
    | _, _ => headTree
  match core.content.cache.peek (.tree ⟨file.repoId, root⟩) with
  | some (.tree snapshot) => do
    let entry ← snapshot.entries.find? fun entry => entry.path = file.path
    let blob ← entry.kind.blobEntry
    some ⟨file.repoId, file.path, .blob blob, {}⟩
  | _ => none

/-- The render of a file, for opening it and for a comment's anchor and context. -/
def ClientCore.renderOfFile (core : ClientCore) (file : FileRef) : Option RenderKey := do
  let review ← core.view.review
  let original := review.originalRender.filter fun key =>
    key.repoId = file.repoId ∧ key.path = file.path
  match original with
  | some key => some key
  | none =>
    if core.panels.tab = .browse then core.blobRenderOf file
    else match review.fileAt file with
      | some key => some key
      | none => core.blobRenderOf file

/-- Pin the chunks of a render that are on hand. -/
def pinChunks (key : RenderKey) : Client Unit :=
  write fun core => { core with
    content.cache := (core.content.cache.entries.map Prod.fst).foldl
      (fun cache found => match found with
        | .chunk of _ => if of = key then cache.pin found else cache
        | .tree _ | .header _ => cache) core.content.cache }

/-- A newly opened file takes the keys, unless a modal panel has them. -/
def focusOpened (firstRow : Nat) : Client Unit :=
  panels fun panels => match panels.focus with
    | .composer | .help => panels
    | _ => { panels with focus := .diff firstRow .head }

/-- Show a render over some rows and fetch what it needs. -/
def showRender (reviewId : ReviewId) (key : RenderKey) (firstRow lastRow : Nat) :
    Client Unit := do
  let core ← read
  let changedFile := ¬ core.openFile.any fun file => file.render = key
  let original := core.view.review.bind OpenReview.original
  if changedFile then panels fun panels => { panels with browseRepo := some key.repoId }
  else pure ()
  showFile (some ⟨key, min firstRow lastRow, max firstRow lastRow⟩) original
  if changedFile then do
    focusOpened (min firstRow lastRow)
    retainReviewPins
    pinChunks key
  else pure ()
  let core ← read
  let window := core.viewportWindow key
  pruneQueue fun fetch => match fetch with
    | .chunk of index => of = key ∧ window.any fun window => window.contains index
    | .tree .. | .render .. => true
  if (headerOf core.content.cache key).isSome then wantViewportChunks key
  else wantEach [.render reviewId key ChunkIndex.FIRST PREFETCH_RADIUS]
  render [.focus]

/-- The host shows some rows of a file. -/
def viewport (file : FileRef) (firstRow lastRow : Nat) : Risky Unit := do
  let core ← read
  match core.view.review with
  | none => fail .noOpenReview
  | some review => match core.renderOfFile file with
    | none => fail (.unknownFile file)
    | some key => always (showRender review.snapshot.review.id key firstRow lastRow)

/-- Land on the first diff when no file is open. A thread that a reference landed on
keeps the focus. -/
def autoOpenFirst : Client Unit := do
  let core ← read
  match core.view.review with
  | none => pure ()
  | some review => match review.openFile, review.files with
    | none, first :: _ => do
      let _ ← attempt (viewport ⟨first.repoId, first.path⟩ 0 (PAGE_ROWS - 1))
      match core.panels.focus with
      | .thread index => panels fun panels => { panels with focus := .thread index }
      | _ => pure ()
    | _, _ => pure ()

/-- The open review's files; an open file that is not among them closes. -/
def setFiles (files : List RenderKey) : Client Unit :=
  write fun core => { core with
    view.review := core.view.review.map fun review =>
      let stale := review.openFile.any fun file =>
        ¬ files.contains file.render ∧ review.original ≠ some file.render
      { review with files, openFile := if stale then none else review.openFile } }

/-- Pin and want one file's header, and its first chunk when the header is on hand. -/
def prefetch (reviewId : ReviewId) (key : RenderKey) : Client Unit := do
  pin (.header key)
  let resident ← want (.render reviewId key ChunkIndex.FIRST ChunkIndex.FIRST)
  let core ← read
  match headerOf core.content.cache key with
  | none => pure ()
  | some header => if resident then wantChunksFor key header else pure ()

/-- The listing answered: replace the file list and prefetch each header. -/
def reviewFiles (reviewId : ReviewId) (files : List FileChange) : Client Unit := do
  let core ← read
  match core.view.review with
  | none => pure ()
  | some _ => do
    let renders := files.map fun file =>
      RenderKey.mk file.repoId file.path (.diff file.kind) core.content.config.renderOpts
    setFiles renders
    retainReviewPins
    each (prefetch reviewId) renders
    autoOpenFirst

/-- Review closed or replaced: release pins, drop queued content. -/
def reviewClosed : Client Unit := do
  pruneQueue fun _ => false
  let core ← read
  putCache core.content.cache.clearPins

/-- Pin and fetch a render that just became the open file. -/
def wantOpenRender (reviewId : ReviewId) (key : RenderKey) : Client Unit := do
  retainReviewPins
  pin (.header key)
  let core ← read
  if (headerOf core.content.cache key).isSome then wantViewportChunks key
  else wantEach [.render reviewId key ChunkIndex.FIRST PREFETCH_RADIUS]

/-- Close the file on screen. -/
def closeFile : Risky Unit := do
  let core ← read
  match core.view.review with
  | none => fail .noOpenReview
  | some review =>
    if review.openFile.isNone then fail .noOpenFile
    else always leaveFile
where
  leaveFile : Client Unit := do
    showFile none none
    pruneQueue fun fetch => match fetch with
      | .chunk .. => false
      | .tree .. | .render .. => true
    retainReviewPins
    render [.focus]

/-- A chunk on a render stream: cache it, and cancel the stream once it has passed
what was wanted. -/
def streamChunk (id : RequestId) (key : RenderKey) (stopAfter : ChunkIndex)
    (chunk : RenderChunk) : Client Unit := do
  arrived (.chunk key chunk.index) (.chunk chunk) .stream
  if stopAfter ≤ chunk.index then order (.send (.cancel id)) else pure ()

/-- Removed and changed paths go, then added and changed entries come in. -/
def applyDelta (snapshot : TreeSnapshot) (delta : TreeDelta) : TreeSnapshot :=
  let gone := delta.removed ++ delta.changed.map TreeEntry.path ++ delta.added.map TreeEntry.path
  { snapshot with
    entries := ((snapshot.entries.filter fun entry => ¬ gone.contains entry.path) ++
      (delta.added ++ delta.changed)).insertionSort fun left right =>
        left.path.asStr ≤ right.path.asStr
    rootOid := delta.toRoot }

/-- Build the new immutable tree of a repository; the old key remains valid. -/
def treeDelta (delta : TreeDelta) : Client Unit := do
  let core ← read
  match core.content.cache.peek (.tree ⟨delta.repoId, delta.fromRoot⟩) with
  | some (.tree snapshot) => do
    let next := applyDelta snapshot delta
    arrived (.tree (.ofSnapshot next)) (.tree next) .response
  | _ => pure ()

end Content

end Nits.ClientCore
