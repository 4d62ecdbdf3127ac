import NetProg.Http.Forks
import NetProg.Npshell.Forks

/-!
# One process each

What the shells and the server have in common: a child that was forked for a program
goes on as what forked it where `execvp` fails, and only there. An existence test is no
promise that it succeeds: what exists may be a directory, may not be executable, or may
not be where `execvp` looks for it, since a name with a slash is tested below every
directory of the path but executed as it stands.
-/

namespace NetProg

open Families Runs

/-- A turn of a shell or of the server leaves no second process if and only if its command or its
request settles. So in every run in which all of them do, from whatever the shell or the server
starts with, there is at most one process.

A child that returns from its branch goes on in the loop of its parent. The runs are those of a
family of processes, in which every one of them takes its own turns; that it stays a family of one
follows from the turns, by induction on the run. -/
theorem one_process_settled (f : Npshell.Frame) (shellTurn : Npshell.Turn) (s : Http.HttpServer)
    (serverTurn : Http.Turn) :
    (Npshell.child f shellTurn = none ↔ Npshell.Settles f shellTurn) ∧
      (Http.child s serverTurn = none ↔ Http.Settles s serverTurn) ∧
      (∀ events shells, Run (family Npshell.program f) (Each Npshell.Settles) events shells →
        shells.length ≤ 1) ∧
      ∀ events servers, Run (family Http.program s) (Each Http.Settles) events servers →
        servers.length ≤ 1 := by
  refine ⟨Npshell.childless_iff f shellTurn, Http.childless_iff s serverTurn, ?_, ?_⟩
  · intro events shells run
    exact family_length_le (fun f turn => (Npshell.childless_iff f turn).mpr) run
  · intro events servers run
    exact family_length_le (fun s turn => (Http.childless_iff s turn).mpr) run

/-- Two programs, which are where they are looked for. -/
def twoPrograms : Files where
  finds path := [str "bin/ls", str "./panel.cgi"].contains path
  execve path := if [str "bin/ls", str "./panel.cgi"].contains path then .runs else .absent

/-- The turn in which the command of a line is executed. -/
def executesWith (files : Files) : Npshell.Turn := .passes ⟨true, true, files⟩

/-- The turn in which a request arrives. -/
def requests (text : Str) (files : Files) : Http.Turn :=
  ⟨.reads 0 text, some Http.localClient, files⟩

/-- The turn in which a connection is accepted. -/
def acceptsWith (files : Files) : Http.Turn := ⟨.accepts, none, files⟩

/-- `ls` and `panel.cgi` are executed, by a child each. -/
theorem one_process_programs :
    (∃ shells, Run (family Npshell.program (Npshell.begun [])) (Each Npshell.Settles)
      [(0, .reads (str "ls")), (0, executesWith twoPrograms)] shells ∧ shells.length ≤ 1) ∧
    ∃ servers, Run (family Http.program (Http.begun ⟨[], []⟩)) (Each Http.Settles)
      [(0, acceptsWith twoPrograms),
        (0, requests (str "GET /panel.cgi HTTP/1.0\r\n\r\n") twoPrograms)] servers ∧
      servers.length ≤ 1 := by
  obtain ⟨-, -, shellsFew, serversFew⟩ := one_process_settled (Npshell.begun [])
    (executesWith twoPrograms) (Http.begun ⟨[], []⟩) (acceptsWith twoPrograms)
  have shellsRun := @run_played _ _ Npshell.program (Npshell.begun [])
    (Each Npshell.program.Childless)
    _ _ [(0, .reads (str "ls")), (0, executesWith twoPrograms)] 1 (by decide +kernel)
  have serversRun := @run_played _ _ Http.program (Http.begun ⟨[], []⟩) (Each Http.program.Childless)
    _ _ [(0, acceptsWith twoPrograms),
      (0, requests (str "GET /panel.cgi HTTP/1.0\r\n\r\n") twoPrograms)] 1 (by decide +kernel)
  obtain ⟨shells, shellsRun, -⟩ := shellsRun
  obtain ⟨servers, serversRun, -⟩ := serversRun
  have shellsSettle := shellsRun.weaken (fun _ event childless f taken =>
    (Npshell.childless_iff f event.2).mp (childless f taken))
  have serversSettle := serversRun.weaken (fun _ event childless s taken =>
    (Http.childless_iff s event.2).mp (childless s taken))
  exact ⟨⟨shells, shellsSettle, shellsFew _ _ shellsSettle⟩,
    servers, serversSettle, serversFew _ _ serversSettle⟩

/-- A directory `bin`, which is found by its name but not executed. -/
def onlyDirectories : Files where
  finds path := path = str "./bin"
  execve path := if path = str "./bin" then .denied else .absent

/-- The line `bin` leaves two shells, in either program, and a request for a program that
does not exist leaves two servers. -/
theorem directory_as_command :
    (∃ shells, Run (family Npshell.program (Npshell.begun [])) always
      [(0, .reads (str "bin")), (0, executesWith onlyDirectories)] shells ∧ shells.length = 2) ∧
    (∃ shells, Run (family Npshell.program (Npshell.begunSimple [])) always
      [(0, .reads (str "bin")), (0, executesWith onlyDirectories)] shells ∧ shells.length = 2) ∧
    ∃ servers, Run (family Http.program (Http.begun ⟨[], []⟩)) always
      [(0, acceptsWith onlyDirectories),
        (0, requests (str "GET /missing.cgi HTTP/1.0\r\n\r\n") onlyDirectories)] servers ∧
      servers.length = 2 := by
  refine ⟨?_, ?_, ?_⟩
  · exact run_played _ (by decide +kernel)
  · exact run_played _ (by decide +kernel)
  · exact run_played _ (by decide +kernel)

end NetProg
