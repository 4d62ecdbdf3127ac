import NetProg.Environment

/-!
# `execvp`

A name with a slash in it is executed as it stands. For every other name the
directories of the variable `PATH` are tried in order, an empty one standing for the
working directory: where there is no such file, or it may not be executed, the search
goes on, and every other failure ends it. A file without a known format is given to
`/bin/sh`, and then the search is over as well.

`access` tells whether a path exists, whatever is there. Where everything that exists
can be executed, and the directories are not empty, a name without a slash exists in
one of them if and only if `execvp` succeeds with it.
-/

namespace NetProg

/-- How `execve` ends for a path: it does not return; the file is in no known format; a
part of the path is missing or no directory; something on the way, or the file, may not
be used like this; or it fails for another reason. -/
inductive Execve where
  | runs
  | noFormat
  | absent
  | denied
  | fails
  deriving DecidableEq

/-- The files, as `access` and `execve` see them. -/
structure Files where
  finds : Str → Bool
  execve : Str → Execve

/-- The directories that are searched where there is no `PATH`. -/
def standardPath : Str := str "/bin:/usr/bin"

theorem colon_nonempty : str ":" ≠ [] := by decide

/-- The directories that `execvp` searches. -/
def Environment.searched (env : Environment) : List Str :=
  split ((env.getenv (str "PATH")).getD standardPath) (str ":") colon_nonempty

/-- The search path of a shell is the one that `execvp` searches, once it has been set and
from then on. -/
theorem Environment.searched_setEnv (env : Environment) {var : Str} (val : Str)
    (kept : var = str "PATH" ∨ env.pathVector = env.searched) :
    (env.setEnv var val).pathVector = (env.setEnv var val).searched := by
  by_cases isPath : var = str "PATH"
  · subst isPath
    have set := env.getenv_setenv_self val (by decide +kernel : ¬ (str "PATH" = [] ∨ 61 ∈ str "PATH"))
    have reads : (env.setEnv (str "PATH") val).getenv (str "PATH") = some val := set
    rw [searched, reads]
    rfl
  · have others := env.getenv_setenv_other val (Ne.symm isPath)
    have same : (env.setenv var val).pathVector = env.pathVector := by
      rw [setenv]
      split <;> rfl
    rw [setEnv, if_neg isPath, same, kept.resolve_left isPath, searched, searched, others]

/-- A name in a directory that is searched. -/
def pathIn (name dir : Str) : Str := if dir = [] then name else dir ++ str "/" ++ name

namespace Files

/-- One path is tried: `execvp` succeeds or fails with it, or goes on with its search. -/
def attempt (files : Files) (path : Str) : Option Bool :=
  match files.execve path with
  | .runs => some true
  | .noFormat => some (files.execve (str "/bin/sh") = .runs)
  | .absent => none
  | .denied => none
  | .fails => some false

/-- Whether `execvp` succeeds, and so does not return. -/
def execvp (files : Files) (env : Environment) (name : Str) : Bool :=
  if name = [] then false
  else if 47 ∈ name then (files.attempt name).getD false
  else (env.searched.findSome? (fun dir => files.attempt (pathIn name dir))).getD false

/-- What is at a path can be executed, and where there is nothing the search goes on. Without it
`execvp` can stop at a file that is there and cannot be executed. -/
structure Plain (files : Files) (path : Str) : Prop where
  found : files.finds path = true → files.execve path = .runs
  missing : files.finds path = false → files.execve path = .absent ∨ files.execve path = .denied

theorem Plain.attempt {files : Files} {path : Str} (plain : files.Plain path) :
    files.attempt path = if files.finds path then some true else none := by
  cases finds : files.finds path with
  | true => simp [Files.attempt, plain.found finds]
  | false => rcases plain.missing finds with absent | denied <;> simp [Files.attempt, *]

/-- A name with a slash is not searched for. -/
theorem execvp_slash (files : Files) (env : Environment) {name : Str} (slash : 47 ∈ name) :
    files.execvp env name = (files.attempt name).getD false := by
  have nonempty : name ≠ [] := List.ne_nil_of_mem slash
  rw [execvp, if_neg nonempty, if_pos slash]

/-- The search succeeds if and only if there is a file in one of the directories. -/
theorem search_plain {files : Files} {name : Str} (dirs : List Str)
    (nonempty : ∀ dir ∈ dirs, dir ≠ [])
    (plain : ∀ dir ∈ dirs, files.Plain (dir ++ str "/" ++ name)) :
    (dirs.findSome? (fun dir => files.attempt (pathIn name dir))).getD false =
      (dirs.map (fun dir => dir ++ str "/" ++ name)).any files.finds := by
  induction dirs with
  | nil => rfl
  | cons dir rest ih =>
    have joined : pathIn name dir = dir ++ str "/" ++ name :=
      if_neg (nonempty dir List.mem_cons_self)
    have here := (plain dir List.mem_cons_self).attempt
    have later := ih (fun other member => nonempty other (List.mem_cons_of_mem dir member))
      (fun other member => plain other (List.mem_cons_of_mem dir member))
    rw [List.findSome?_cons, joined, here, List.map_cons, List.any_cons, ← later]
    cases files.finds (dir ++ str "/" ++ name) <;> rfl

/-- The test of the shells agrees with `execvp` on a name without a slash, where the
search path is the one in the environment and has no empty directory, and what exists
can be executed. -/
theorem execvp_eq_any {files : Files} {env : Environment} {name : Str} (nonempty : name ≠ [])
    (noSlash : 47 ∉ name) (searched : env.pathVector = env.searched)
    (dirs : ∀ dir ∈ env.pathVector, dir ≠ [])
    (plain : ∀ dir ∈ env.pathVector, files.Plain (dir ++ str "/" ++ name)) :
    files.execvp env name = (env.candidates name).any files.finds := by
  rw [execvp, if_neg nonempty, if_neg noSlash, ← searched, search_plain _ dirs plain]
  rfl

end Files

end NetProg
