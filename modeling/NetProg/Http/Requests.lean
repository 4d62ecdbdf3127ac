import NetProg.Environment
import NetProg.Http.Language
import NetProg.Library.Tokens

/-!
# Requests that were accepted

`handle_request` prepares a reply with what the parser has read, puts the request into
variables for a CGI program, and runs one if the path of the request says so. The
target is cut at its question marks each time it is looked at, with runs of them taken
for one, and what stands behind a second question mark is not looked at.

In `http_server` the variables are those of the process, and the program is executed in
a child. The server of `main.cpp` has them as members of the session and has two
programs of its own.
-/

namespace NetProg.Http

open Outcomes

/-- `SplitVec[0]`. -/
def firstPiece (separator : UInt8) (text : Str) : Str :=
  (Tokens.split (· = separator) text).headD []

/-- `SplitVec[1]`, or what is used where there is one piece only. -/
def secondPiece (separator : UInt8) (missing text : Str) : Str :=
  let splitVec := Tokens.split (· = separator) text
  if splitVec.length = 1 then missing else splitVec.getD 1 []

/-- `boost::algorithm::contains`. -/
def contains (text part : Str) : Bool := (findFirst part text).isSome

/-- What the two ends of a connection are called. -/
structure Endpoints where
  localAddr : Str
  remoteAddr : Str
  remotePort : Nat

/-- `setenv_client`. Without a client the endpoints throw, and the variables are left as
they are by then. -/
def setenvClient (endpoints : Option Endpoints) (req : Request) (env : Environment) :
    Except Environment Environment :=
  let env := env.setenv (str "REQUEST_METHOD") (cstr req.method)
  let env := env.setenv (str "REQUEST_URI") (cstr (firstPiece 63 req.rawUri))
  let env := env.setenv (str "QUERY_STRING") (cstr (secondPiece 63 [] req.rawUri))
  let env := env.setenv (str "SERVER_PROTOCOL") (cstr req.protocol)
  let env := env.setenv (str "HTTP_HOST") (cstr (firstPiece 58 req.host))
  let env := env.setenv (str "SERVER_PORT") (cstr (secondPiece 58 (str "80") req.host))
  match endpoints with
  | none => .error env
  | some ends =>
    let env := env.setenv (str "SERVER_ADDR") (cstr ends.localAddr)
    let env := env.setenv (str "REMOTE_ADDR") (cstr ends.remoteAddr)
    .ok (env.setenv (str "REMOTE_PORT") (cstr (decimal ends.remotePort)))

/-- `reply`, without its status, which `handle_request` does not set. -/
structure Reply where
  headers : List Header
  content : Str
  deriving DecidableEq

/-- The reply that `handle_request` prepares. -/
def replyOf (req : Request) : Reply :=
  let br := str "<br>"
  let content := req.method ++ br ++ req.rawUri ++ br ++ req.protocol ++ br ++
    req.headers.flatMap (fun header => header.name ++ str " " ++ header.value ++ br)
  ⟨[⟨str "Content-Length", decimal content.length⟩, ⟨str "Content-Type", str "text/html"⟩], content⟩

/-- The bytes of the line that `OK` sends. -/
def okLine (proto : Str) : Str := proto ++ str " 200 OK\nServer: sake\n"

/-- What `handle_request` does at its end: `do_write` with the reply, or in a child the
line of `OK` and `execvp` with a file and the first argument. -/
inductive Service where
  | write
  | execute (ok file argument : Str)
  deriving DecidableEq

/-- `cmd` in `fork_service`, less its first character. -/
def serviceName (req : Request) : Str := (firstPiece 63 req.rawUri).drop 1

/-- `fork_service`, in the child. -/
def forkService (req : Request) : Service :=
  .execute (okLine req.protocol) (cstr (str "./" ++ serviceName req)) (cstr (serviceName req))

/-- `handle_request`. -/
def handleRequest (endpoints : Option Endpoints) (req : Request) (env : Environment) :
    Except Environment (Environment × Reply × Service) := do
  let after ← setenvClient endpoints req env
  let cmd := firstPiece 63 req.rawUri
  return (after, replyOf req, if contains cmd (str "cgi") then forkService req else .write)

namespace CgiServer

/-- The variables of `HttpSession` in `main.cpp`. -/
structure Variables where
  requestMethod : Str
  requestUri : Str
  queryString : Str
  serverProtocol : Str
  httpHost : Str
  serverAddr : Str
  serverPort : Str
  remoteAddr : Str
  remotePort : Str
  deriving DecidableEq

/-- `setenv_client`. -/
def setenvClient (endpoints : Option Endpoints) (req : Request) (vars : Variables) :
    Except Variables Variables :=
  let vars := { vars with
    requestMethod := req.method
    requestUri := firstPiece 63 req.rawUri
    queryString := secondPiece 63 [] req.rawUri
    serverProtocol := req.protocol
    httpHost := firstPiece 58 req.host
    serverPort := secondPiece 58 (str "80") req.host }
  match endpoints with
  | none => .error vars
  | some ends => .ok { vars with
      serverAddr := ends.localAddr
      remoteAddr := ends.remoteAddr
      remotePort := decimal ends.remotePort }

/-- What `handle_request` does at its end: `do_write` with the reply, or the line of `OK`
and one of the two programs, if it is one of them. -/
inductive Service where
  | write
  | panel (ok : Str)
  | console (ok query : Str)
  | nothing (ok : Str)
  deriving DecidableEq

/-- `fork_service`, which does not fork here. -/
def forkService (req : Request) (vars : Variables) : Service :=
  let cmd := serviceName req
  if cmd = str "panel.cgi" then .panel (okLine req.protocol)
  else if cmd = str "console.cgi" then .console (okLine req.protocol) vars.queryString
  else .nothing (okLine req.protocol)

/-- `handle_request`. -/
def handleRequest (endpoints : Option Endpoints) (req : Request) (vars : Variables) :
    Except Variables (Variables × Reply × Service) := do
  let after ← setenvClient endpoints req vars
  let cmd := firstPiece 63 req.rawUri
  return (after, replyOf req,
    if contains cmd (str "cgi") then forkService req after else .write)

end CgiServer

/-! ## The two parts of a target -/

/-- The part of a target in front of its first question mark. -/
def pathOf (uri : Str) : Str := uri.takeWhile (· ≠ 63)

/-- The part behind its first question mark. -/
def queryOf (uri : Str) : Str := (uri.dropWhile (· ≠ 63)).drop 1

/-- The path of a target is its first piece. -/
theorem firstPiece_eq (uri : Str) : firstPiece 63 uri = pathOf uri := by
  have first := @Tokens.split_head? UInt8 (· = 63) uri
  have same : uri.takeWhile (fun c => ! decide (c = 63)) = pathOf uri := by simp [pathOf]
  rw [firstPiece, List.headD_eq_head?_getD, first, Option.getD_some, same]

/-- The second piece of a target starts behind the run of question marks it stands
behind, and ends at the next one. -/
theorem secondPiece_eq (uri : Str) :
    secondPiece 63 [] uri = ((queryOf uri).dropWhile (· = 63)).takeWhile (· ≠ 63) := by
  have cut := @Tokens.split_eq UInt8 (· = 63) uri
  have same : uri.dropWhile (fun c => ! decide (c = 63)) = uri.dropWhile (· ≠ 63) := by simp
  rw [secondPiece, cut, same, queryOf]
  cases uri.dropWhile (· ≠ 63) with
  | nil => rfl
  | cons mark rest =>
    have second := @Tokens.split_eq UInt8 (· = 63) (rest.dropWhile (· = 63))
    simp [second]

/-- The query is kept if and only if there is no question mark in it. The piece behind the first
run of question marks ends before the next one, and the query begins behind the first mark. -/
theorem secondPiece_eq_query_iff (uri : Str) :
    secondPiece 63 [] uri = queryOf uri ↔ uri.count 63 ≤ 1 := by
  have marks : 63 ∉ queryOf uri ↔ uri.count 63 ≤ 1 := by
    have whole : uri.takeWhile (· ≠ 63) ++ uri.dropWhile (· ≠ 63) = uri :=
      List.takeWhile_append_dropWhile
    have before : (uri.takeWhile (· ≠ 63)).count 63 = 0 := by
      apply List.count_eq_zero.mpr
      intro member
      simpa using List.mem_takeWhile_imp member
    have total : uri.count 63 = (uri.dropWhile (· ≠ 63)).count 63 := by
      rw [← Nat.zero_add ((uri.dropWhile (· ≠ 63)).count 63), ← before, ← List.count_append, whole]
    rw [total, queryOf]
    cases left : uri.dropWhile (· ≠ 63) with
    | nil => simp
    | cons mark rest =>
      have isMark : mark = 63 := by
        have stops := List.head?_dropWhile_not (· ≠ 63) uri
        rw [left] at stops
        simpa using stops
      rw [isMark, List.count_cons_self, List.drop_succ_cons, List.drop_zero, Nat.succ_le_succ_iff,
        Nat.le_zero, List.count_eq_zero]
  rw [secondPiece_eq, ← marks]
  constructor
  · intro same member
    rw [← same] at member
    simpa using List.mem_takeWhile_imp member
  · intro free
    have noRun : (queryOf uri).dropWhile (· = 63) = queryOf uri := by
      cases query : queryOf uri with
      | nil => rfl
      | cons c rest =>
        have other : c ≠ 63 := by
          rintro rfl
          exact free (query ▸ List.mem_cons_self)
        exact List.dropWhile_cons_of_neg (by simpa using other)
    rw [noRun, List.takeWhile_eq_self_iff]
    intro c member
    simp only [ne_eq, decide_eq_true_eq]
    rintro rfl
    exact free member

/-! ## What was accepted -/

/-- The text of an accepted request. -/
theorem accepted_text {bytes : Str} {state : State} {req : Request}
    (accepted : parseAlone bytes = .ok (.good, state, req)) :
    ∃ text : RequestText, text.bytes <+: bytes ∧ req = text.kept := by
  obtain ⟨text, starts⟩ := (good_iff accepted).mp rfl
  have same := accepted.symm.trans (parseAlone_starts starts)
  cases same
  exact ⟨text, starts, rfl⟩

/-- The characters of an accepted target are no control characters. -/
theorem accepted_uri {bytes : Str} {state : State} {req : Request}
    (accepted : parseAlone bytes = .ok (.good, state, req)) : ∀ c ∈ req.rawUri, uriChar c = true := by
  obtain ⟨text, -, rfl⟩ := accepted_text accepted
  exact text.uri.allowed

/-- All parts of an accepted target are read to their end. -/
theorem cstr_part {uri part : Str} (allowed : ∀ c ∈ uri, uriChar c = true) (sub : part ⊆ uri) :
    cstr part = part := by
  apply cstr_eq
  rintro c member rfl
  exact absurd (allowed 0 (sub member)) (by decide)

theorem pathOf_subset (uri : Str) : pathOf uri ⊆ uri := (List.takeWhile_prefix _).subset

theorem secondPiece_subset (uri : Str) : secondPiece 63 [] uri ⊆ uri := by
  rw [secondPiece_eq, queryOf]
  exact ((List.takeWhile_prefix _).sublist.trans <| (List.dropWhile_sublist _).trans <|
    (List.drop_sublist _ _).trans (List.dropWhile_sublist _)).subset

/-! ## Where the target ends up -/

/-- The variables with the two parts of the target. -/
structure SplitsTarget (uri : Str) (env : Environment) : Prop where
  requestUri : env.getenv (str "REQUEST_URI") = some (pathOf uri)
  queryString : env.getenv (str "QUERY_STRING") = some (queryOf uri)

/-- The service for a path: its program if it has `cgi` in it. -/
def serviceFor (proto path : Str) : Service :=
  if contains path (str "cgi") then
    .execute (okLine proto) (str "./" ++ path.drop 1) (path.drop 1)
  else .write

/-- The target is split at its first question mark, whether or not the client is still there, and
its path decides on the service. -/
structure TargetRight (endpoints : Option Endpoints) (req : Request) (env : Environment) : Prop where
  splits : Ends (setenvClient endpoints req env) (SplitsTarget req.rawUri) (SplitsTarget req.rawUri)
  serves : ∀ done, handleRequest endpoints req env = .ok done →
    done.2.2 = serviceFor req.protocol (pathOf req.rawUri)

/-- What the two variables are left with. -/
structure TargetVariables (req : Request) (env : Environment) : Prop where
  requestUri : env.getenv (str "REQUEST_URI") = some (cstr (firstPiece 63 req.rawUri))
  queryString : env.getenv (str "QUERY_STRING") = some (cstr (secondPiece 63 [] req.rawUri))

theorem setenvClient_ends (endpoints : Option Endpoints) (req : Request) (env : Environment) :
    Ends (setenvClient endpoints req env) (TargetVariables req) (TargetVariables req) := by
  cases endpoints with
  | none =>
    constructor <;>
      simp (disch := decide +kernel) only [Environment.getenv_setenv_other,
        Environment.getenv_setenv_self]
  | some ends =>
    constructor <;>
      simp (disch := decide +kernel) only [Environment.getenv_setenv_other,
        Environment.getenv_setenv_self]

/-- The variables have the two parts if and only if the query has no question mark. -/
theorem splitsTarget_iff {uri : Str} (allowed : ∀ c ∈ uri, uriChar c = true) {req : Request}
    (target : req.rawUri = uri) {env : Environment} (set : TargetVariables req env) :
    SplitsTarget uri env ↔ uri.count 63 ≤ 1 := by
  have path : cstr (firstPiece 63 uri) = pathOf uri := by
    rw [firstPiece_eq]
    exact cstr_part allowed (pathOf_subset uri)
  have query : cstr (secondPiece 63 [] uri) = secondPiece 63 [] uri :=
    cstr_part allowed (secondPiece_subset uri)
  obtain ⟨isUri, isQuery⟩ := set
  rw [target, path] at isUri
  rw [target, query] at isQuery
  rw [← secondPiece_eq_query_iff]
  constructor
  · intro splits
    exact Option.some.inj (isQuery.symm.trans splits.queryString)
  · intro whole
    exact ⟨isUri, isQuery.trans (congrArg some whole)⟩

/-- The path decides on the service. -/
theorem handleRequest_serves {endpoints : Option Endpoints} {req : Request} {env : Environment}
    {done : Environment × Reply × Service} (allowed : ∀ c ∈ req.rawUri, uriChar c = true)
    (handled : handleRequest endpoints req env = .ok done) :
    done.2.2 = serviceFor req.protocol (pathOf req.rawUri) := by
  obtain ⟨after, -, returned⟩ := bind_eq_ok.mp handled
  cases returned
  have dropped : (pathOf req.rawUri).drop 1 ⊆ req.rawUri :=
    List.Subset.trans (List.drop_subset _ _) (pathOf_subset _)
  have name : cstr ((pathOf req.rawUri).drop 1) = (pathOf req.rawUri).drop 1 :=
    cstr_part allowed dropped
  have file : cstr (str "./" ++ (pathOf req.rawUri).drop 1) =
      str "./" ++ (pathOf req.rawUri).drop 1 := by
    apply cstr_eq
    intro c member
    rcases List.mem_append.mp member with front | behind
    · exact (show ∀ c ∈ str "./", c ≠ 0 by decide +kernel) c front
    · rintro rfl
      exact absurd (allowed 0 (dropped behind)) (by decide)
  simp only [serviceFor, forkService, serviceName, firstPiece_eq, name, file]

namespace CgiServer

/-- The variables with the two parts of the target. -/
structure SplitsTarget (uri : Str) (vars : Variables) : Prop where
  requestUri : vars.requestUri = pathOf uri
  queryString : vars.queryString = queryOf uri

/-- The service for a path: a program if it has `cgi` in it, with the query. -/
def serviceFor (proto path query : Str) : Service :=
  if contains path (str "cgi") then
    if path.drop 1 = str "panel.cgi" then .panel (okLine proto)
    else if path.drop 1 = str "console.cgi" then .console (okLine proto) query
    else .nothing (okLine proto)
  else .write

/-- The target is split at its first question mark, whether or not the client is still
there, and its path decides on the service. -/
structure TargetRight (endpoints : Option Endpoints) (req : Request) (vars : Variables) : Prop where
  splits : Ends (setenvClient endpoints req vars) (SplitsTarget req.rawUri) (SplitsTarget req.rawUri)
  serves : ∀ done, handleRequest endpoints req vars = .ok done →
    done.2.2 = serviceFor req.protocol (pathOf req.rawUri) done.1.queryString

theorem splits_iff (endpoints : Option Endpoints) (req : Request) (vars : Variables) :
    Ends (setenvClient endpoints req vars) (SplitsTarget req.rawUri) (SplitsTarget req.rawUri) ↔
      req.rawUri.count 63 ≤ 1 := by
  rw [← secondPiece_eq_query_iff]
  cases endpoints with
  | none => exact ⟨fun splits => splits.queryString, fun whole => ⟨firstPiece_eq _, whole⟩⟩
  | some ends => exact ⟨fun splits => splits.queryString, fun whole => ⟨firstPiece_eq _, whole⟩⟩

theorem handleRequest_serves {endpoints : Option Endpoints} {req : Request} {vars : Variables}
    {done : Variables × Reply × Service} (handled : handleRequest endpoints req vars = .ok done) :
    done.2.2 = serviceFor req.protocol (pathOf req.rawUri) done.1.queryString := by
  obtain ⟨after, -, returned⟩ := bind_eq_ok.mp handled
  cases returned
  simp only [serviceFor, forkService, serviceName, firstPiece_eq]

end CgiServer

/-- The target of an accepted request is split right, by either server, if and only if there is no
second question mark in it. The path is then what stands before the first one and the query string
what stands behind it.

The two servers have their own code for this, and each of the two equivalences is about one. -/
theorem target_right_iff {bytes : Str} {state : State} {req : Request}
    (accepted : parseAlone bytes = .ok (.good, state, req)) (endpoints : Option Endpoints)
    (env : Environment) (vars : CgiServer.Variables) :
    (TargetRight endpoints req env ↔ req.rawUri.count 63 ≤ 1) ∧
      (CgiServer.TargetRight endpoints req vars ↔ req.rawUri.count 63 ≤ 1) := by
  have allowed := accepted_uri accepted
  have left := setenvClient_ends endpoints req env
  have splits : Ends (setenvClient endpoints req env) (SplitsTarget req.rawUri)
      (SplitsTarget req.rawUri) ↔ req.rawUri.count 63 ≤ 1 := by
    cases outcome : setenvClient endpoints req env with
    | ok after | error after =>
      rw [outcome] at left
      exact splitsTarget_iff allowed rfl left
  constructor
  · constructor
    · intro right
      exact splits.mp right.splits
    · intro few
      exact ⟨splits.mpr few, fun done handled => handleRequest_serves allowed handled⟩
  · constructor
    · intro right
      exact (CgiServer.splits_iff endpoints req vars).mp right.splits
    · intro few
      exact ⟨(CgiServer.splits_iff endpoints req vars).mpr few,
        fun done handled => CgiServer.handleRequest_serves handled⟩

/-- A `GET` request for a target, without headers. -/
def requestFor (uri : Uri) : RequestText := { continuedHost with uri := uri, headers := [] }

/-- A client on the same machine. -/
def localClient : Endpoints := ⟨str "127.0.0.1", str "127.0.0.1", 40000⟩

/-- The variables of a session before its request. -/
def CgiServer.Variables.unset : CgiServer.Variables := ⟨[], [], [], [], [], [], [], [], []⟩

/-- The target of a form that was sent. -/
def formUri : Uri := ⟨str "/console.cgi?h0=nplinux1&p0=1234", by decide +kernel⟩

/-- The query of the form, which has one question mark, at both servers. -/
theorem target_right_form : ∃ state req,
    parseAlone (requestFor formUri).bytes = .ok (.good, state, req) ∧
    TargetRight (some localClient) req ⟨[], []⟩ ∧
    CgiServer.TargetRight (some localClient) req .unset := by
  have accepted := parseAlone_bytes (requestFor formUri)
  have iff := target_right_iff accepted (some localClient) ⟨[], []⟩ .unset
  have few : (requestFor formUri).kept.rawUri.count 63 ≤ 1 := by decide +kernel
  exact ⟨_, _, accepted, iff.1.mpr few, iff.2.mpr few⟩

/-- The target of a query with a question mark in it. -/
def markedUri : Uri := ⟨str "/printenv.cgi?a?b", by decide +kernel⟩

/-- The query ends at that question mark. -/
theorem query_cut_at_second_mark :
    parseAlone (str "GET /printenv.cgi?a?b HTTP/1.0\r\n\r\n") =
      .ok (.good, .expectingNewline3, (requestFor markedUri).kept) ∧
    queryOf (requestFor markedUri).kept.rawUri = str "a?b" ∧
    Ends (setenvClient (some localClient) (requestFor markedUri).kept ⟨[], []⟩)
      (fun after => after.getenv (str "QUERY_STRING") = some (str "a")) (fun _ => False) ∧
    ¬ TargetRight (some localClient) (requestFor markedUri).kept ⟨[], []⟩ ∧
    ¬ CgiServer.TargetRight (some localClient) (requestFor markedUri).kept .unset := by
  have bytes : (requestFor markedUri).bytes = str "GET /printenv.cgi?a?b HTTP/1.0\r\n\r\n" := by
    decide +kernel
  have query : queryOf (requestFor markedUri).kept.rawUri = str "a?b" := by decide +kernel
  have left : Ends (setenvClient (some localClient) (requestFor markedUri).kept ⟨[], []⟩)
      (fun after => after.getenv (str "QUERY_STRING") = some (str "a")) (fun _ => False) :=
    show Environment.getenv _ _ = _ by decide +kernel
  refine ⟨bytes ▸ parseAlone_bytes (requestFor markedUri), query, left, ?_, ?_⟩
  · intro right
    have isQuery := right.splits.queryString
    rw [query] at isQuery
    exact absurd (isQuery.symm.trans left) (by decide +kernel)
  · intro right
    have isQuery := right.splits.queryString
    rw [query] at isQuery
    exact absurd isQuery (by decide +kernel)

end NetProg.Http
