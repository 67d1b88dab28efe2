import ToDoList.Firestore.LocalStore

/-!
# The write stream

The stream carries the writes of the client to the backend. A request is
answered in its turn. The stream may end at any time, and what had not been
answered is then sent again on a new one.
-/

namespace ToDoList

namespace Firestore

/-- The error codes. -/
inductive Error
  | cancelled
  | unknown
  | invalidArgument
  | deadlineExceeded
  | notFound
  | alreadyExists
  | permissionDenied
  | unauthenticated
  | resourceExhausted
  | failedPrecondition
  | aborted
  | outOfRange
  | unimplemented
  | internal
  | unavailable
  | dataLoss
  deriving DecidableEq

/-- `none` is OK. -/
abbrev Status := Option Error

namespace Datastore

def isPermanentError : Status → Option Bool
  | none => none
  | some .cancelled => some false
  | some .unknown => some false
  | some .deadlineExceeded => some false
  | some .resourceExhausted => some false
  | some .internal => some false
  | some .unavailable => some false
  | some .unauthenticated => some false
  | some .invalidArgument => some true
  | some .notFound => some true
  | some .alreadyExists => some true
  | some .permissionDenied => some true
  | some .failedPrecondition => some true
  | some .aborted => some true
  | some .outOfRange => some true
  | some .unimplemented => some true
  | some .dataLoss => some true

def isPermanentWriteError (error : Status) : Option Bool :=
  (isPermanentError error).map fun permanent => permanent && error ≠ some .aborted

end Datastore

inductive StreamState
  | initial
  | starting
  | open_
  | error
  | backoff
  deriving DecidableEq

inductive WriteRequest
  | handshake
  | mutations (mutations : List Mutation) (streamToken : ByteString)

structure WriteResponse where
  streamToken : ByteString
  result : MutationBatchResult

/-- What is on its way on one connection: the requests whose answers have not
been read, and the answers to the first of them. -/
structure GrpcStream where
  requests : List WriteRequest
  responses : List WriteResponse

structure WriteStream where
  state : StreamState
  handshakeComplete : Bool
  closeCount : Nat
  idlenessTimer : Bool
  backoffTimer : Bool
  lastStreamToken : ByteString
  grpcStream : Option GrpcStream
  /-- The requests for credentials on their way, each by the close count it was made at. -/
  credentialRequests : List Nat

namespace WriteStream

def new : WriteStream := ⟨.initial, false, 0, false, false, [], none, []⟩

def isOpen (stream : WriteStream) : Bool := stream.state = .open_

def isStarted (stream : WriteStream) : Bool := stream.state = .starting || stream.state = .backoff || stream.isOpen

def requestCredentials (stream : WriteStream) : WriteStream :=
  { stream with credentialRequests := stream.credentialRequests ++ [stream.closeCount] }

def backoffAndTryRestarting (stream : WriteStream) : Option WriteStream :=
  if stream.state = .error then some { stream with state := .backoff, backoffTimer := true } else none

def start (stream : WriteStream) : Option WriteStream :=
  if stream.state = .error then stream.backoffAndTryRestarting
  else if stream.state = .initial then some (requestCredentials { stream with state := .starting })
  else none

/-- What runs when the backoff delay is over. -/
def backoffElapsed (stream : WriteStream) : Option WriteStream :=
  if stream.state = .backoff then
    (start { stream with state := .initial, backoffTimer := false }).bind fun stream =>
      if stream.isStarted then some stream else none
  else none

def inhibitBackoff (stream : WriteStream) : Option WriteStream :=
  if stream.isStarted then none else some { stream with state := .initial }

def markIdle (stream : WriteStream) : WriteStream :=
  if stream.isOpen && !stream.idlenessTimer then { stream with idlenessTimer := true } else stream

def write (request : WriteRequest) (stream : WriteStream) : Option WriteStream :=
  match stream.grpcStream with
  | none => none
  | some grpcStream =>
    if stream.isOpen then
      some { stream with
        idlenessTimer := false
        grpcStream := some { grpcStream with requests := grpcStream.requests ++ [request] } }
    else none

def writeHandshake (stream : WriteStream) : Option WriteStream :=
  if stream.isOpen && !stream.handshakeComplete then stream.write .handshake else none

def writeMutations (mutations : List Mutation) (stream : WriteStream) : Option WriteStream :=
  if stream.isOpen && stream.handshakeComplete then stream.write (.mutations mutations stream.lastStreamToken)
    else none

/-- The connection is made, and the stream is open. -/
def onStreamStart (stream : WriteStream) : WriteStream :=
  { stream with grpcStream := some ⟨[], []⟩, state := .open_ }

/-- What `Close` does before it tells its callback. -/
def closing (status : Status) (stream : WriteStream) : WriteStream :=
  { stream with
    idlenessTimer := false
    backoffTimer := false
    closeCount := stream.closeCount + 1
    grpcStream := none
    state := if status = none then .initial else .error }

end WriteStream

end Firestore

end ToDoList
