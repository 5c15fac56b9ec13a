import AgentScale.Library.Transition

set_option autoImplicit false

/-! # Uploads and downloads

A file is transferred in two parts. One side puts the file into its blob store under a temporary tag
and tells the other side the hash; the other side fetches the blob with that hash into a temporary file
beside the destination and renames it when the blob has been verified. For a download the Edge holds
the blob until the daemon closes the request, for an upload the daemon holds it until the Edge has
answered. The file at the source may change at any time, a store collects what no tag holds, the
connection may be lost and either process may die. -/

namespace AgentScale.Transfer

open Transition

abbrev Bytes := List UInt8

/-! ## Messages -/

inductive TransferResult (Hash : Type) where
  | downloadReady (hash : Hash)
  | stored (bytes : Nat)

structure RemoteError where
  code : String
  message : String

def RemoteError.internal (message : String) : RemoteError := ⟨"internal", message⟩

/-- `RpcResult`, the payload of a RESULT frame. -/
inductive RpcResult (α : Type) where
  | ok (value : α)
  | error (error : RemoteError)

variable {Hash : Type}

/-- `into_resp`. The Edge answers an upload in the same way. -/
def intoResp : Except String Nat → RpcResult (TransferResult Hash)
  | .ok bytes => .ok (.stored bytes)
  | .error error => .error (.internal error)

/-- What `do_download` makes of the answer of the Edge. -/
def downloadHash : RpcResult (TransferResult Hash) → Except String Hash
  | .ok (.downloadReady hash) => .ok hash
  | .ok (.stored _) => .error "edge returned an upload result for download"
  | .error e => .error ("edge " ++ e.code ++ ": " ++ e.message)

/-- What `do_upload` makes of the answer of the Edge. -/
def uploadBytes : RpcResult (TransferResult Hash) → Except String Nat
  | .ok (.stored bytes) => .ok bytes
  | .ok (.downloadReady _) => .error "edge returned a download result for upload"
  | .error e => .error ("edge " ++ e.code ++ ": " ++ e.message)

/-- `transfer` of the command line: the number of bytes that it prints. -/
def transfer : RpcResult (TransferResult Hash) → Except String Nat
  | .ok (.stored bytes) => .ok bytes
  | .ok (.downloadReady _) => .error "daemon returned an intermediate download result"
  | .error e => .error (e.code ++ ": " ++ e.message)

/-! ## `fetch_to_file` -/

/-- Where `fetch_to_file` is. `temp` is what the temporary file holds. -/
inductive Fetch where
  | connecting
  | receiving (temp : Bytes) (total : Nat)
  | completed (temp : Bytes) (total : Nat)
  | synced (temp : Bytes) (total : Nat)
  /-- The temporary file has been renamed; `install_download` syncs the directory. -/
  | installed (total : Nat)
  | returned (result : Except String Nat)

/-- What the blob stream and the file system do next. `fails` is an error of whatever is called at this
    point, with its context. -/
inductive FetchEvent where
  | connected
  | leaf (data : Bytes)
  | parent
  | done
  | ended
  | fileSynced
  | persisted
  | directorySynced
  | fails (error : String)

/-- One step of `fetch_to_file`, and the file that replaces the destination. Whatever the peer sends,
    the stream says that it is done only when what it delivered has the hash that was asked for. -/
def Fetch.step [DecidableEq Hash] (hashOf : Bytes → Hash) (hash : Hash) :
    Fetch → FetchEvent → Option (Fetch × Option Bytes)
  | .connecting, .connected => some (.receiving [] 0, none)
  | .receiving temp total, .leaf data => some (.receiving (temp ++ data) (total + data.length), none)
  | .receiving temp total, .parent => some (.receiving temp total, none)
  | .receiving temp total, .done =>
    if hashOf temp = hash then some (.completed temp total, none) else none
  | .receiving _ _, .ended =>
    some (.returned (.error "blob stream ended before verification completed"), none)
  | .completed temp total, .fileSynced => some (.synced temp total, none)
  | .synced temp total, .persisted => some (.installed total, some temp)
  | .installed total, .directorySynced => some (.returned (.ok total), none)
  | .returned _, _ => none
  | _, .fails error => some (.returned (.error error), none)
  | _, _ => none

/-! ## Downloads -/

/-- The Edge on `PrepareDownload`. -/
inductive PrepareDownload where
  | waiting
  /-- The temporary tag is held until the stream of the request is closed. -/
  | holding (content : Bytes)
  | ended
deriving DecidableEq

inductive DoDownload (Hash : Type) where
  | dialing
  | awaiting
  | fetching (hash : Hash) (fetch : Fetch)
  | returned (result : Except String Nat)
  | died

/-- A download. `before` is what the destination held at the start, `staged` what the Edge put into its
    store. -/
structure Download (Hash : Type) where
  source : Option Bytes
  before : Option Bytes
  dest : Option Bytes
  staged : Option Bytes
  blobs : List Bytes
  edge : PrepareDownload
  daemon : DoDownload Hash
  requested : Bool
  answer : Option (RpcResult (TransferResult Hash))
  lost : Bool

inductive DownloadEvent where
  /-- The file at the source changes. -/
  | write (content : Option Bytes)
  | request
  | stage
  | stageFails (error : String)
  | readAnswer
  | fetch (event : FetchEvent)
  /-- `recv.read_to_end` returns on the Edge. -/
  | closed
  /-- The store of the Edge collects. -/
  | collect
  | lose
  /-- An error of the daemon outside of `fetch_to_file`. -/
  | daemonFails (error : String)
  | edgeDies
  | daemonDies

/-- Whether the daemon still has the stream of the request open. -/
def DoDownload.isOpen : DoDownload Hash → Bool
  | .dialing | .awaiting | .fetching _ _ => true
  | .returned _ | .died => false

/-- `do_download` returns what `fetch_to_file` returns. -/
def DoDownload.afterFetch (hash : Hash) : Fetch → DoDownload Hash
  | .returned result => .returned result
  | fetch => .fetching hash fetch

def Download.perform [DecidableEq Hash] (hashOf : Bytes → Hash) (path : String) (s : Download Hash) :
    DownloadEvent → Option (Download Hash)
  | .write content => some { s with source := content }
  | .request =>
    match s.daemon with
    | .dialing => some { s with daemon := .awaiting, requested := true }
    | _ => none
  | .stage =>
    match s.edge, s.requested, s.source with
    | .waiting, true, some content =>
      some { s with
        edge := .holding content, staged := some content, blobs := content :: s.blobs
        answer := some (.ok (.downloadReady (hashOf content))) }
    | _, _, _ => none
  | .stageFails error =>
    match s.edge, s.requested with
    | .waiting, true =>
      some { s with
        edge := .ended, answer := some (.error (.internal ("stage " ++ path ++ ": " ++ error))) }
    | _, _ => none
  | .readAnswer =>
    match s.daemon, s.answer with
    | .awaiting, some answer =>
      match downloadHash answer with
      | .ok hash => some { s with daemon := .fetching hash .connecting }
      | .error error => some { s with daemon := .returned (.error error) }
    | _, _ => none
  | .fetch event =>
    match s.daemon with
    | .fetching hash fetch =>
      (fetch.step hashOf hash event).map (fun (next, file) =>
        { s with daemon := .afterFetch hash next, dest := file <|> s.dest })
    | _ => none
  | .closed =>
    match s.edge with
    | .holding _ => if s.daemon.isOpen && !s.lost then none else some { s with edge := .ended }
    | _ => none
  | .collect => some { s with blobs := s.blobs.filter (fun blob => s.edge = .holding blob) }
  | .lose => some { s with lost := true }
  | .daemonFails error =>
    match s.daemon with
    | .dialing | .awaiting => some { s with daemon := .returned (.error error) }
    | _ => none
  | .edgeDies => some { s with edge := .ended, lost := true }
  | .daemonDies => some { s with daemon := .died, lost := true }

/-- A download that has not begun. -/
def Download.start (source before : Option Bytes) : Download Hash :=
  ⟨source, before, before, none, [], .waiting, .dialing, false, none, false⟩

def download [DecidableEq Hash] (hashOf : Bytes → Hash) (path : String) : System (Download Hash) where
  init s := ∃ source before, s = .start source before
  step s t := ∃ event, s.perform hashOf path event = some t

/-! ## Uploads -/

/-- `do_upload`. The temporary tag is held from `staged` on until it returns. -/
inductive DoUpload where
  | staging
  | staged (content : Bytes)
  | awaiting (content : Bytes)
  | returned (result : Except String Nat)
  | died

/-- The Edge on `ReceiveUpload`. -/
inductive ReceiveUpload (Hash : Type) where
  | waiting
  | fetching (hash : Hash) (fetch : Fetch)
  | answered
  | ended

/-- The request of an upload: the hash and the identity that the client says it has. -/
structure UploadRequest (Hash : Type) where
  hash : Hash
  clientId : String

structure Upload (Hash : Type) where
  source : Option Bytes
  before : Option Bytes
  dest : Option Bytes
  staged : Option Bytes
  blobs : List Bytes
  daemon : DoUpload
  edge : ReceiveUpload Hash
  request : Option (UploadRequest Hash)
  answer : Option (RpcResult (TransferResult Hash))
  lost : Bool

inductive UploadEvent where
  | write (content : Option Bytes)
  | stage
  | request
  | receive
  /-- An identity, relay URL or hash that does not parse. -/
  | receiveFails (error : String)
  | fetch (event : FetchEvent)
  | readAnswer
  /-- An error of the daemon: before it has asked, or with the stream of the request closed. -/
  | daemonFails (error : String)
  | collect
  | lose
  | edgeDies
  | daemonDies

/-- What the tag of the daemon holds. -/
def DoUpload.tag : DoUpload → Option Bytes
  | .staged content | .awaiting content => some content
  | .staging | .returned _ | .died => none

/-- Whether the Edge may still answer. -/
def ReceiveUpload.mayAnswer : ReceiveUpload Hash → Bool
  | .waiting | .fetching _ _ | .answered => true
  | .ended => false

/-- When `recv_upload` returns, the Edge writes the result. -/
def Upload.afterFetch (hash : Hash) (s : Upload Hash) : Fetch → Upload Hash
  | .returned result => { s with edge := .answered, answer := some (intoResp result) }
  | fetch => { s with edge := .fetching hash fetch }

/-- The steps of an upload. `clientId` is the identity of the daemon and `authenticated` the one that the
    connection has proved to the Edge. -/
def Upload.perform [DecidableEq Hash] (hashOf : Bytes → Hash) (clientId authenticated : String)
    (s : Upload Hash) : UploadEvent → Option (Upload Hash)
  | .write content => some { s with source := content }
  | .stage =>
    match s.daemon, s.source with
    | .staging, some content =>
      some { s with
        daemon := .staged content, staged := some content, blobs := content :: s.blobs }
    | _, _ => none
  | .request =>
    match s.daemon with
    | .staged content =>
      some { s with daemon := .awaiting content, request := some ⟨hashOf content, clientId⟩ }
    | _ => none
  | .receive =>
    match s.edge, s.request with
    | .waiting, some request =>
      -- "upload client_id does not match authenticated connection" ends the request unanswered.
      if request.clientId = authenticated then
        some { s with edge := .fetching request.hash .connecting }
      else some { s with edge := .ended }
    | _, _ => none
  | .receiveFails error =>
    match s.edge, s.request with
    | .waiting, some _ => some { s with edge := .answered, answer := some (intoResp (.error error)) }
    | _, _ => none
  | .fetch event =>
    match s.edge with
    | .fetching hash fetch =>
      (fetch.step hashOf hash event).map (fun (next, file) =>
        Upload.afterFetch hash { s with dest := file <|> s.dest } next)
    | _ => none
  | .readAnswer =>
    match s.daemon, s.answer with
    | .awaiting _, some answer => some { s with daemon := .returned (uploadBytes answer) }
    | _, _ => none
  | .daemonFails error =>
    match s.daemon with
    | .staging | .staged _ => some { s with daemon := .returned (.error error) }
    | .awaiting _ =>
      if s.edge.mayAnswer && !s.lost then none
      else some { s with daemon := .returned (.error error) }
    | _ => none
  | .collect => some { s with blobs := s.blobs.filter (fun blob => s.daemon.tag = some blob) }
  | .lose => some { s with lost := true }
  | .edgeDies => some { s with edge := .ended, lost := true }
  | .daemonDies => some { s with daemon := .died, lost := true }

/-- An upload that has not begun. -/
def Upload.start (source before : Option Bytes) : Upload Hash :=
  ⟨source, before, before, none, [], .staging, .waiting, none, none, false⟩

def upload [DecidableEq Hash] (hashOf : Bytes → Hash) (clientId authenticated : String) :
    System (Upload Hash) where
  init s := ∃ source before, s = .start source before
  step s t := ∃ event, s.perform hashOf clientId authenticated event = some t

end AgentScale.Transfer
