import NetProg.Execvp
import NetProg.Http.Requests
import NetProg.Http.Sessions
import NetProg.Library.Families

/-!
# The children of the server

`fork_service` forks for every accepted request that has `cgi` in its path, whether or
not there is such a program. The child puts the socket on its standard descriptors and
calls `execvp`. Where that fails, it returns from the handler into the event loop: it
accepts from the same listening socket and reads from the same connections as the
server. The parent returns to its event loop in any case.

A process is the sessions with the parser state, and its environment, which every
handled request changes. Where the client is gone by then, an endpoint throws, and the
exception ends the process before it forks.
-/

namespace NetProg.Http

open Families Runs Outcomes

/-- `http_server`. -/
structure HttpServer where
  server : Server
  environment : Environment

/-- An event, with what the system answers while it is handled. -/
structure Turn where
  event : Event
  endpoints : Option Endpoints
  files : Files

/-- The request that is handed to `handle_request` after a read, if the parse is `good`. -/
def handedOver (event : Event) (server : Server) : Option Request :=
  match event with
  | .accepts => none
  | .fails _ => none
  | .reads k _ => (server.sessions[k]?).bind fun session =>
      if session.result = some .good then some session.request else none

/-- The handler of an event, up to the point where it forks: what the process is left as
there, and what it does then. -/
def handler (s : HttpServer) (turn : Turn) : Option (HttpServer × Option Service) :=
  match serve s.server turn.event with
  | .error _ => none
  | .ok server =>
    match handedOver turn.event server with
    | none => some (⟨server, s.environment⟩, none)
    | some req =>
      match handleRequest turn.endpoints req s.environment with
      | .error _ => none
      | .ok (environment, _, service) => some (⟨server, environment⟩, some service)

/-- The child that goes on in the event loop. -/
def child (s : HttpServer) (turn : Turn) : Option HttpServer :=
  match handler s turn with
  | some (forked, some (.execute _ file _)) =>
    if turn.files.execvp forked.environment file then none else some forked
  | _ => none

/-- The server as a program that forks. -/
def program : Program HttpServer Turn where
  offers s turn := Offers s.server turn.event
  goesOn s turn := (handler s turn).map Prod.fst
  child := child

instance (s : HttpServer) (turn : Turn) : Decidable (program.offers s turn) :=
  inferInstanceAs (Decidable (Offers s.server turn.event))

/-- The server before its first connection. -/
def begun (environment : Environment) : HttpServer := ⟨system.start, environment⟩

/-- A request that is handled has no `cgi` in its path, or its client is gone, or `execvp` can
execute the path, less its first character, behind `./`. In all these cases the child does not go
on. -/
def Settles (s : HttpServer) (turn : Turn) : Prop :=
  ∀ server, serve s.server turn.event = .ok server →
    ∀ req ∈ handedOver turn.event server, contains (firstPiece 63 req.rawUri) (str "cgi") = true →
      turn.endpoints = none ∨
        turn.files.attempt (cstr (str "./" ++ serviceName req)) = some true

/-- The file that is executed has a slash in it. -/
theorem slash_mem_file (req : Request) : 47 ∈ cstr (str "./" ++ serviceName req) := by
  have front : cstr (str "./" ++ serviceName req) = str "./" ++ cstr (serviceName req) := rfl
  rw [front]
  exact List.mem_append_left _ (by decide +kernel)

/-- As long as the client is there, a request is handled to its end. -/
theorem handleRequest_connected (ends : Endpoints) (req : Request) (env : Environment) :
    ∃ after reply, handleRequest (some ends) req env = .ok (after, reply,
      if contains (firstPiece 63 req.rawUri) (str "cgi") then forkService req else .write) :=
  ⟨_, _, rfl⟩

/-- A turn leaves no second server if and only if its request settles. -/
theorem childless_iff (s : HttpServer) (turn : Turn) : program.Childless s turn ↔ Settles s turn := by
  change child s turn = none ↔ Settles s turn
  cases served : serve s.server turn.event with
  | error failure => simp [child, handler, Settles, served]
  | ok server =>
    cases handed : handedOver turn.event server with
    | none => simp [child, handler, Settles, served, handed]
    | some req =>
      have settles : Settles s turn ↔ (contains (firstPiece 63 req.rawUri) (str "cgi") = true →
          turn.endpoints = none ∨
            turn.files.attempt (cstr (str "./" ++ serviceName req)) = some true) := by
        simp [Settles, served, handed]
      rw [settles]
      cases present : turn.endpoints with
      | none =>
        have thrown : handler s turn = none := by
          simp only [handler, served, handed, present, handleRequest, setenvClient]
          rfl
        simp [child, thrown]
      | some ends =>
        obtain ⟨after, reply, handled⟩ := handleRequest_connected ends req s.environment
        have handles : handler s turn = some (⟨server, after⟩, some
            (if contains (firstPiece 63 req.rawUri) (str "cgi") then forkService req else .write)) := by
          simp only [handler, served, handed, present, handled]
        have tried := turn.files.execvp_slash after (slash_mem_file req)
        rw [child, handles]
        by_cases letters : contains (firstPiece 63 req.rawUri) (str "cgi") = true
        · simp only [letters, if_true, forkService, tried]
          cases turn.files.attempt (cstr (str "./" ++ serviceName req)) with
          | none => simp
          | some executes => cases executes <;> simp
        · simp [letters]

end NetProg.Http
