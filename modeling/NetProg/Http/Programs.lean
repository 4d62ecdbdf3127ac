import NetProg.Http.Requests
import NetProg.Library.Paths
import NetProg.SearchPath

/-!
# Which programs the server executes

The file that `fork_service` executes is the path of the target behind `./`, less its
first character, and the only condition on it is that the path has `cgi` in it. Neither
where in the path these letters stand nor the parents in it are looked at. So the file
is one of the directory the server was started in only for some targets.
-/

namespace NetProg.Http

open Paths

/-- What stands between two slashes of a path. -/
def segmentOf (text : Str) : Segment Str :=
  if text = [] ∨ text = str "." then .stay
  else if text = str ".." then .up
  else .down text

/-- The segments of a path. -/
def segments (path : Str) : List (Segment Str) := (path.splitOn 47).map segmentOf

/-- The names on the way to what a path stands for, by its text alone. A path that starts
with a slash is walked from the root, every other from the working directory. -/
def resolve (cwd : List Str) (path : Str) : List Str :=
  walk (if path.head? = some 47 then [] else cwd) (segments path)

/-- The path names a file below the working directory whose name ends in `.cgi`, once its `.` and
`..` are resolved. -/
def OwnProgram (cwd : List Str) (path : Str) : Prop :=
  ∃ names name, resolve cwd path = cwd ++ names ++ [name] ∧ str ".cgi" <:+ name

/-- If the request is served by executing a file, it is a program of the server's own. -/
def ExecutesOwn (endpoints : Option Endpoints) (req : Request) (env : Environment)
    (cwd : List Str) : Prop :=
  ∀ done, handleRequest endpoints req env = .ok done →
    ∀ ok file argument, done.2.2 = .execute ok file argument → OwnProgram cwd file

/-- The path has a segment that ends in `.cgi`, the segments behind it take themselves
back, and those in front of it lead to the working directory or below it. -/
def LeadsToProgram (cwd : List Str) (path : Str) : Prop :=
  ∃ before name behind, segments path = before ++ .down name :: behind ∧ str ".cgi" <:+ name ∧
    TakenBack behind ∧ cwd <+: walk cwd before

/-- The letters are nowhere in the path. -/
theorem contains_eq_false_iff {text part : Str} (nonempty : part ≠ []) :
    contains text part = false ↔ ¬ part <:+: text := by
  rw [contains, Option.isSome_eq_false_iff, Option.isNone_iff_eq_none]
  constructor
  · exact findFirst_none nonempty
  · intro absent
    cases found : findFirst part text with
    | none => rfl
    | some k =>
      have whole := (findFirst_some nonempty found).1
      exact absurd ⟨text.take k, _, whole⟩ absent

theorem segments_dot (path : Str) : segments (str "./" ++ path) = .stay :: segments path := by
  have noSlash : 47 ∉ str "." := by decide +kernel
  have cut : (str "./" ++ path).splitOn 47 = str "." :: path.splitOn 47 :=
    List.splitOn_append_cons_self_of_not_mem noSlash path
  rw [segments, cut, List.map_cons]
  rfl

/-- A file behind `./` is one of the server's own programs if its path leads to one. It is the
rule for walks that lead below where they have started. -/
theorem ownProgram_dot_iff (cwd : List Str) (path : Str) :
    OwnProgram cwd (str "./" ++ path) ↔ LeadsToProgram cwd path := by
  have relative : resolve cwd (str "./" ++ path) = walk cwd (segments path) := by
    rw [resolve, segments_dot]
    rfl
  rw [OwnProgram, relative]
  exact walk_below_iff (str ".cgi" <:+ ·) cwd (segments path)

/-- With a client, every request is served. -/
theorem handleRequest_returns (endpoints : Endpoints) (req : Request) (env : Environment) :
    ∃ done, handleRequest (some endpoints) req env = .ok done := ⟨_, rfl⟩

/-- For every accepted request and wherever the server was started, what it executes is a program
of its own if and only if the path of the target has no `cgi` in it or leads, less its first
character, to such a program.

The server looks for these letters anywhere in the path, and takes no care of `..`: the path is
resolved, component by component, as the system does it. -/
theorem executes_own_iff {bytes : Str} {state : State} {req : Request}
    (accepted : parseAlone bytes = .ok (.good, state, req)) (endpoints : Endpoints)
    (env : Environment) (cwd : List Str) :
    ExecutesOwn (some endpoints) req env cwd ↔
      ¬ str "cgi" <:+: pathOf req.rawUri ∨ LeadsToProgram cwd ((pathOf req.rawUri).drop 1) := by
  obtain ⟨done, handled⟩ := handleRequest_returns endpoints req env
  have serves := handleRequest_serves (accepted_uri accepted) handled
  rw [← contains_eq_false_iff (by decide), ← ownProgram_dot_iff]
  cases letters : contains (pathOf req.rawUri) (str "cgi") with
  | false =>
    rw [serviceFor, letters, if_neg Bool.false_ne_true] at serves
    simp only [true_or, iff_true]
    intro other isOther ok file argument executes
    cases isOther.symm.trans handled
    rw [serves] at executes
    cases executes
  | true =>
    rw [serviceFor, letters, if_pos rfl] at serves
    simp only [Bool.true_eq_false, false_or]
    constructor
    · intro own
      exact own done handled _ _ _ serves
    · intro own other isOther ok file argument executes
      cases isOther.symm.trans handled
      rw [serves] at executes
      cases executes
      exact own

/-- Where a server was started. -/
def home : List Str := [str "home", str "www"]

/-- The form is answered by a program of the server's own. -/
theorem executes_own_form : ∃ state req,
    parseAlone (requestFor formUri).bytes = .ok (.good, state, req) ∧
    ExecutesOwn (some localClient) req ⟨[], []⟩ home := by
  have accepted := parseAlone_bytes (requestFor formUri)
  have iff := executes_own_iff accepted localClient ⟨[], []⟩ home
  refine ⟨_, _, accepted, iff.mpr (.inr ⟨[], str "console.cgi", [], ?_, ?_, rfl, List.prefix_rfl⟩)⟩
  · decide +kernel
  · decide +kernel

/-- A target that leads to a file next to the working directory. -/
def besideUri : Uri := ⟨str "/../cgi-bin/run", by decide +kernel⟩

/-- That file is executed. -/
theorem executes_beside :
    parseAlone (str "GET /../cgi-bin/run HTTP/1.0\r\n\r\n") =
      .ok (.good, .expectingNewline3, (requestFor besideUri).kept) ∧
    (∃ after rep, handleRequest (some localClient) (requestFor besideUri).kept ⟨[], []⟩ =
      .ok (after, rep, .execute (str "HTTP/1.0 200 OK\nServer: sake\n") (str "./../cgi-bin/run")
        (str "../cgi-bin/run"))) ∧
    resolve home (str "./../cgi-bin/run") = [str "home", str "cgi-bin", str "run"] ∧
    ¬ ExecutesOwn (some localClient) (requestFor besideUri).kept ⟨[], []⟩ home := by
  have bytes : (requestFor besideUri).bytes = str "GET /../cgi-bin/run HTTP/1.0\r\n\r\n" := by
    decide +kernel
  have leads : resolve home (str "./../cgi-bin/run") = [str "home", str "cgi-bin", str "run"] := by
    decide +kernel
  have served : ∃ after rep, handleRequest (some localClient) (requestFor besideUri).kept ⟨[], []⟩ =
      .ok (after, rep, .execute (str "HTTP/1.0 200 OK\nServer: sake\n") (str "./../cgi-bin/run")
        (str "../cgi-bin/run")) := by
    obtain ⟨⟨after, rep, service⟩, handled⟩ :=
      handleRequest_returns localClient (requestFor besideUri).kept ⟨[], []⟩
    have serves : service = serviceFor _ _ := handleRequest_serves besideUri.allowed handled
    have isService : serviceFor (requestFor besideUri).kept.protocol
        (pathOf (requestFor besideUri).kept.rawUri) =
        .execute (str "HTTP/1.0 200 OK\nServer: sake\n") (str "./../cgi-bin/run")
          (str "../cgi-bin/run") := by decide +kernel
    exact ⟨after, rep, by rw [handled, serves, isService]⟩
  refine ⟨bytes ▸ parseAlone_bytes (requestFor besideUri), served, leads, ?_⟩
  intro own
  obtain ⟨after, rep, handled⟩ := served
  obtain ⟨names, name, same, -⟩ := own _ handled _ _ _ rfl
  rw [leads] at same
  have inside : home <+: [str "home", str "cgi-bin", str "run"] :=
    ⟨names ++ [name], by rw [same, List.append_assoc]⟩
  exact absurd inside (by decide +kernel)

end NetProg.Http
