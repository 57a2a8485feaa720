import Nits.ClientCore.Fold

/-!
# Suggestions

Inspection and application of one suggestion. A filesystem change is never replayed:
an uncertain application is reconciled by reading.
-/

set_option linter.dupNamespace false

namespace Nits.ClientCore

open Logical Logical.Handler Protocol

/-- The status of a suggestion, from what was recorded and what was inspected. -/
def Suggestion.State.status (state : Suggestion.State) (record : SuggestionRecord) :
    Suggestion.Status :=
  match record.outcome with
  | .applied _ => .applied
  | .unapplied => match state.stage with
    | .checking _ => .loading
    | .applying _ => .applying
    | .uncertain message => .uncertain message
    | .rejected message => .rejected message
    | .idle => match state.inspection with
      | none => .unloaded
      | some (.rejected reason) => .rejected reason
      | some (.checked worktree) => match worktree with
        | .original => .ready
        | .changed => .stale
        | .unavailable reason => .rejected reason
        | .proposed => .uncertain ("The proposed bytes are already present, but no applied " ++
            "receipt was recorded. Inspect the file before taking further action.")

/-- The record of a suggestion whose comment is not deleted. -/
def ClientCore.suggestionRecord (core : ClientCore) (commentId : CommentId) :
    Except CoreError SuggestionRecord :=
  match core.view.review with
  | none => .error .noOpenReview
  | some review =>
    if review.snapshot.comments.any fun comment =>
        comment.id = commentId ∧ comment.state ≠ .deleted then
      match review.snapshot.suggestions.find? fun record => record.commentId = commentId with
      | some record => .ok record
      | none => .error (.mutation (.unknownComment commentId))
    else .error (.mutation (.unknownComment commentId))

def ClientCore.suggestionState (core : ClientCore) (commentId : CommentId) : Suggestion.State :=
  (core.suggestions[commentId]?).getD {}

def setSuggestion (commentId : CommentId) (state : Suggestion.State) : Client Unit :=
  write fun core => { core with suggestions := core.suggestions.insert commentId state }

/-- Focus the thread that shows a comment, if one does. -/
def focusSuggestion (commentId : CommentId) : Client Unit :=
  panels fun panels =>
    match panels.derived.threads.findIdx? fun thread => thread.2.contains commentId with
    | none => panels
    | some index => { panels with focus := .thread index, focusedComment := some commentId }

/-- Ask for a fresh reading of a suggestion, unless one is under way. -/
def askPreview (reviewId : ReviewId) (commentId : CommentId) : Client Unit := do
  focusSuggestion commentId
  let core ← read
  let state := core.suggestionState commentId
  match state.stage with
  | .checking _ | .applying _ => setSuggestion commentId state
  | _ => do
    setSuggestion commentId { state with stage := .checking core.nextRequest }
    request (.previewSuggestion reviewId commentId) (.previewSuggestion reviewId commentId)
    render [.threads, .conversation, .focus]

def previewSuggestion (commentId : CommentId) : Risky Unit := do
  requireSubscribed
  let core ← read
  match core.suggestionRecord commentId with
  | .error error => fail error
  | .ok record => always (askPreview record.reviewId commentId)

/-- Send the application of a suggestion. -/
def sendApplication (reviewId : ReviewId) (commentId : CommentId) : Client Unit := do
  focusSuggestion commentId
  let core ← read
  setSuggestion commentId
    { core.suggestionState commentId with stage := .applying core.nextRequest }
  mutateUnshown (.applySuggestion reviewId commentId)
    fun _ => .applySuggestion reviewId commentId
  render [.threads, .conversation, .focus]

/-- Apply a suggestion from a current, ready preview. -/
def applySuggestion (commentId : CommentId) : Risky Unit := do
  requireSubscribed
  let core ← read
  match core.suggestionRecord commentId with
  | .error error => fail error
  | .ok record => match (core.suggestionState commentId).status record with
    | .applying | .applied => pure ()
    | .ready => always (sendApplication record.reviewId commentId)
    | _ => fail (.suggestionNotReady commentId)

/-- A read can discover a durable receipt whose event was lost; an observed receipt is
never replaced by an older one. -/
def discoverReceipt (commentId : CommentId) (receipt : SuggestionReceipt) : Client Unit := do
  let core ← read
  match core.committed with
  | none => pure ()
  | some committed =>
    if committed.suggestions.any fun record => record.commentId = commentId then do
      write fun core => { core with
        committed := some { committed with
          suggestions := modifyFirst (fun record => record.commentId = commentId)
            (fun record => if replacesOutcome receipt.seq record.outcome then
              { record with outcome := .applied receipt } else record) committed.suggestions } }
      let _ ← rebase
      pure ()
    else pure ()

/-- A preview arrived. -/
def suggestionPreviewed (requestId : RequestId) (reviewId : ReviewId) (commentId : CommentId)
    (preview : SuggestionPreview) : Risky Unit := do
  let core ← read
  if core.view.openReview ≠ some reviewId then pure ()
  else match core.suggestionRecord commentId with
    | .error error => fail error
    | .ok record =>
      if preview.suggestion.reviewId ≠ reviewId ∨ preview.suggestion.commentId ≠ commentId ∨
          preview.suggestion.anchor ≠ record.anchor ∨ preview.suggestion.patch ≠ record.patch then
        fail (.unexpectedResponse requestId "Preview of the immutable suggestion"
          "Preview for another suggestion")
      else match core.suggestions[commentId]? with
        | none => pure ()
        | some state =>
          if state.stage ≠ .checking requestId then pure ()
          else always (previewTaken commentId state preview)
where
  previewTaken (commentId : CommentId) (state : Suggestion.State)
      (preview : SuggestionPreview) : Client Unit := do
    setSuggestion commentId
      { state with inspection := some preview.inspection, stage := .idle }
    match preview.suggestion.outcome with
    | .applied receipt => discoverReceipt commentId receipt
    | .unapplied => pure ()
    render [.threads, .conversation]

/-- A preview or an application failed. Even an error can follow a filesystem change. -/
def suggestionFailed (requestId : RequestId) (reviewId : ReviewId) (commentId : CommentId)
    (error : RpcError) : Client Unit := do
  let core ← read
  if core.view.openReview ≠ some reviewId then pure ()
  else match core.suggestions[commentId]? with
    | none => pure ()
    | some state => do
      let message := rpcErrorMessage error
      let next : Option Suggestion.State :=
        if applied core commentId then some { state with stage := .idle }
        else if state.stage = .applying requestId then
          some { state with notice := some message, stage := .uncertain message }
        else if state.stage = .checking requestId then
          some { state with stage := .rejected message }
        else none
      match next with
      | none => pure ()
      | some state => do
        setSuggestion commentId state
        render [.threads, .conversation]
where
  applied (core : ClientCore) (commentId : CommentId) : Bool :=
    match core.suggestionRecord commentId with
    | .ok record => record.outcome ≠ .unapplied
    | .error _ => false

def lostMessage : String :=
  "Connection lost. The result will be checked before another application is offered."

/-- The state of a suggestion after the connection was lost. -/
def Suggestion.State.lost (state : Suggestion.State) : Suggestion.State :=
  match state.stage with
  | .applying _ | .checking _ => { state with stage := .uncertain lostMessage }
  | _ => state

def suggestionsDisconnected : Client Unit :=
  write fun core => { core with
    suggestions := core.suggestions.toList.foldl
      (fun table entry => table.insert entry.1 entry.2.lost) core.suggestions }

/-- Whether losing the connection makes the result of some suggestion uncertain. -/
def ClientCore.suggestionsUnderWay (core : ClientCore) : Bool :=
  core.suggestions.toList.any fun entry => match entry.2.stage with
    | .applying _ | .checking _ => true
    | _ => false

/-- Read again what the lost connection left uncertain. -/
def suggestionsReconnected : Client Unit := do
  let core ← read
  let uncertain := core.suggestions.toList.filterMap fun entry => match entry.2.stage with
    | .uncertain _ => some entry.1
    | _ => none
  each (fun commentId => do
    let _ ← attempt (previewSuggestion commentId)
    pure ()) uncertain

section Applying

variable [Presentation]

/-- Whether an event is the application of a suggestion of a review. -/
def appliesSuggestion (reviewId : ReviewId) (commentId : CommentId) : EventBody → Bool
  | .suggestionApplied review comment .. => review = reviewId ∧ comment = commentId
  | _ => false

/-- The application under `requestId` was committed. -/
def applicationEnded (requestId : RequestId) (reviewId : ReviewId) (commentId : CommentId) :
    Client Unit := do
  let core ← read
  match core.suggestions[commentId]? with
  | none => pure ()
  | some state =>
    if core.view.openReview = some reviewId ∧ state.stage = .applying requestId then
      setSuggestion commentId { state with stage := .idle }
    else pure ()

def setConnection (connection : Connection) : Client Unit :=
  write fun core => { core with connection }

def suggestionApplied (requestId : RequestId) (reviewId : ReviewId) (commentId : CommentId)
    (event : Event) : Risky Unit := do
  if ¬ appliesSuggestion reviewId commentId event.body then
    fail (.unexpectedResponse requestId "Committed application of the requested suggestion"
      "Another committed event")
  else do
    applicationEnded requestId reviewId commentId
    let core ← read
    match core.connection with
    | .subscribed lastSeq => do
      setConnection (.subscribed (max lastSeq event.seq))
      ClientCore.applyEvent event
    | _ => fail (core.wrongState .server)

end Applying

end Nits.ClientCore
