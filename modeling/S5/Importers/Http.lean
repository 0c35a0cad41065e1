import S5.Fs.Dir
import Mathlib.Logic.Function.Basic

/-!
# The HTTP importer

`HttpImporter` (`importers/http/src/lib.rs`): the crawl of `import_url`, with the calls that it makes of
itself running at the same time. A call goes on where it is scheduled, from one `await` to the next.

URLs, HTML and the hash of a blob come from libraries. `FS5` is the map of its files, and the importer is
the only one that uses it.
-/

namespace HttpImport

open Fs

/-! ## Requests -/

/-- A `chrono::DateTime`. -/
structure DateTime where
  timestamp : Int64
  timestampSubsecNanos : UInt32

/-- `timestamp() as u32`. -/
def DateTime.seconds (d : DateTime) : UInt32 := d.timestamp.toUInt64.toUInt32

/-- The headers of the answer to a HEAD request, as far as they can be parsed. -/
structure Head where
  contentLength : Option UInt64
  lastModified : Option DateTime

/-- The answer to a GET request. A `contentType` that is missing is empty. -/
structure Response where
  contentType : String
  lastModified : Option DateTime
  body : Bytes

inductive RequestError where
  /-- `send` fails. -/
  | send
  /-- The status is no success. -/
  | status (code : UInt16)

structure Server (Url : Type) where
  head : Url → Except RequestError Head
  get : Url → Except RequestError Response

inductive Method where
  | head
  | get
  deriving DecidableEq

/-! ## The importer -/

/-- What `url` makes of URLs. -/
structure UrlLib (Url : Type) where
  asStr : Url → String
  scheme : Url → String
  hostStr : Url → Option String
  path : Url → String
  join : Url → String → Option Url
  makeRelative : Url → Url → Option String

structure HttpImporter (Url : Type) where
  lib : UrlLib Url
  /-- The `href`s of the `a` elements of a document. -/
  hrefs : Bytes → List String
  blake3 : Bytes → Hash
  baseUrl : Url
  useBaseRelativeKeys : Bool

/-- A clock, and whether storing a file fails. -/
structure Outcome where
  now : DateTime
  fails : Bool

namespace HttpImporter

variable {Url : Type} (imp : HttpImporter Url)

def globalKey (url : Url) : String :=
  let host := (imp.lib.hostStr url).getD "unknown"
  imp.lib.scheme url ++ "/" ++ host ++ imp.lib.path url

def keyForUrl (url : Url) : String :=
  if imp.useBaseRelativeKeys then
    match imp.lib.makeRelative imp.baseUrl url with
    | some relative => if relative.isEmpty then "" else relative
    | none => imp.globalKey url
  else imp.globalKey url

/-- Whether a file is to be downloaded again, by the answer to a HEAD request. -/
def shouldUpdate (current : FileRef) (head : Head) : Bool :=
  let sizeChanged := head.contentLength ≠ some current.size
  let timeChanged := match head.lastModified with
    | some lm => current.timestamp ≠ some lm.seconds ||
        current.timestampSubsecNanos ≠ some lm.timestampSubsecNanos
    | none => true
  sizeChanged || timeChanged

def isPage (res : Response) : Bool := "text/html".toList.isPrefixOf res.contentType.toList

/-- The links of a page that `handle_html_page` follows. -/
def urlsToVisit [DecidableEq Url] (url : Url) (res : Response) : List Url :=
  (((((imp.hrefs res.body).filter fun href => href.toList.head? ∉ [some '?', some '#', some '.']).filterMap
    (imp.lib.join url)).filter fun parsedUrl =>
      (imp.lib.asStr imp.baseUrl).toList.isPrefixOf (imp.lib.asStr parsedUrl).toList).filter
        (· ≠ url))

/-- The entry of `handle_file`. -/
def fileRef (res : Response) (now : DateTime) : FileRef :=
  let ts := res.lastModified.getD now
  { FileRef.new (imp.blake3 res.body) (UInt64.ofNat res.body.length) with
    timestamp := some ts.seconds
    timestampSubsecNanos := some ts.timestampSubsecNanos }

end HttpImporter

/-! ## Calls -/

/-- A call of `import_url` among the calls of a run: the numbers of the links that led to it, the last
one first. -/
abbrev Trail := List Nat

/-- Where a call is. -/
inductive Phase where
  /-- It waits for a permit. -/
  | queued
  | permitted
  /-- There is an entry for its URL, to be compared with the answer to a HEAD request. -/
  | comparing (current : FileRef)
  | fetching
  /-- It awaits the calls of its links. -/
  | page
  | storing (res : Response)
  | finished

structure Call (Url : Type) where
  url : Url
  phase : Phase

structure Request (Url : Type) where
  call : Trail
  method : Method
  url : Url
  deriving DecidableEq

structure State (Url : Type) where
  calls : Trail → Option (Call Url)
  /-- The permits of the rate limiter that are left. -/
  free : Nat
  /-- The entries of `FS5`. -/
  files : String → Option FileRef
  requests : List (Request Url)
  /-- A call returned an error, so that `try_join_all` drops all others. -/
  failed : Bool

namespace State

variable {Url : Type}

def start (url : Url) (permits : Nat) (files : String → Option FileRef) : State Url where
  calls := Function.update (fun _ => none) [] (some ⟨url, .queued⟩)
  free := permits
  files := files
  requests := []
  failed := false

def move (s : State Url) (t : Trail) (url : Url) (phase : Phase) : State Url :=
  { s with calls := Function.update s.calls t (some ⟨url, phase⟩) }

def release (s : State Url) : State Url := { s with free := s.free + 1 }

def request (s : State Url) (t : Trail) (method : Method) (url : Url) : State Url :=
  { s with requests := s.requests ++ [⟨t, method, url⟩] }

def fail (s : State Url) : State Url := { s with failed := true }

/-- One call for every URL. -/
def spawn (s : State Url) (t : Trail) (urls : List Url) : State Url :=
  { s with calls := fun p =>
      match p with
      | [] => s.calls []
      | i :: q => if q = t then (urls[i]?).map (⟨·, .queued⟩) else s.calls (i :: q) }

/-- `file_get`: a tombstone is no file. -/
def fileGet (s : State Url) (key : String) : Option FileRef :=
  (s.files key).filter fun f => !f.isTombstone

def filePut (s : State Url) (key : String) (file : FileRef) : State Url :=
  { s with files := Function.update s.files key (some file) }

/-- The call at `t` goes on. -/
def advance [DecidableEq Url] (imp : HttpImporter Url) (server : Server Url) (s : State Url) (t : Trail)
    (url : Url) (o : Outcome) : Phase → State Url
  | .queued =>
    if s.free = 0 then s else { s with free := s.free - 1 }.move t url .permitted
  | .permitted =>
    match s.fileGet (imp.keyForUrl url) with
    | some current => s.move t url (.comparing current)
    | none => s.move t url .fetching
  | .comparing current =>
    let s := s.request t .head url
    match server.head url with
    | .error .send => s.fail
    | .error (.status _) => (s.move t url .finished).release
    | .ok head =>
      if HttpImporter.shouldUpdate current head then s.move t url .fetching
      else (s.move t url .finished).release
  | .fetching =>
    let s := s.request t .get url
    match server.get url with
    | .error _ => s.fail
    | .ok res =>
      if HttpImporter.isPage res then
        ((s.move t url .page).release).spawn t (imp.urlsToVisit url res)
      else s.move t url (.storing res)
  | .page => s
  | .storing res =>
    if o.fails then s.fail
    else ((s.filePut (imp.keyForUrl url) (imp.fileRef res o.now)).move t url .finished).release
  | .finished => s

/-- The scheduler lets the call at `e.1` go on. -/
def step [DecidableEq Url] (imp : HttpImporter Url) (server : Server Url) (s : State Url)
    (e : Trail × Outcome) : State Url :=
  if s.failed then s
  else
    match s.calls e.1 with
    | none => s
    | some c => s.advance imp server e.1 c.url e.2 c.phase

/-- `import_url(url)`, as far as its calls are scheduled. -/
def run [DecidableEq Url] (imp : HttpImporter Url) (server : Server Url) (s : State Url)
    (es : List (Trail × Outcome)) : State Url :=
  es.foldl (step imp server) s

/-- How often the body of a URL is fetched. -/
def fetches [DecidableEq Url] (s : State Url) (url : Url) : Nat :=
  s.requests.countP fun r => r.method = .get ∧ r.url = url

end State

end HttpImport
