import NetProg.SingleProc.State

/-!
# The built-in commands

`ExecCmd` runs the built-in commands itself and forks for every other program.
What the child does is not part of the server; in the parent the call returns
zero whether or not it waits. An argument is read without a look at how many
there are, so a built-in command with too few of them fails.
-/

namespace NetProg.SingleProc

/-- `EraseEnv`: the first entry for the variable leaves. -/
def eraseEnv (var : Str) (envVector : List EnvInfo) : List EnvInfo :=
  envVector.eraseP (·.envVar = var)

/-- The record after `EraseEnv`. -/
def ClientInfo.forget (var : Str) (c : ClientInfo) : ClientInfo :=
  { c with envVector := eraseEnv var c.envVector }

/-- The record with one more entry of its environment. -/
def ClientInfo.remember (var val : Str) (c : ClientInfo) : ClientInfo :=
  { c with envVector := c.envVector ++ [⟨var, val⟩] }

/-- The record with a new name. -/
def ClientInfo.rename (newName : Str) (c : ClientInfo) : ClientInfo :=
  { c with userName := newName }

/-- `args[k]`. -/
def arg (s : Server) (arguments : List Str) (k : Nat) : Outcome Str :=
  match arguments[k]? with
  | some text => .ok text
  | none => .error (.argument, s)

theorem arg_eq_ok {s : Server} {arguments : List Str} {k : Nat} {text : Str} :
    arg s arguments k = .ok text ↔ arguments[k]? = some text := by
  cases found : arguments[k]? <;> simp [arg, found]

/-- The words from position `k` on with a blank after each, and the last blank
taken off again by `pop_back`. -/
def message (s : Server) (arguments : List Str) (k : Nat) : Outcome Str :=
  match arguments.drop k with
  | [] => .error (.popBack, s)
  | rest => .ok (rest.flatMap (· ++ str " ")).dropLast

/-- `PrintEnv`, to the client through the standard output. -/
def printEnv (s : Server) (cli : ClientInfo) (var : Str) : Server :=
  match s.environment.getenv var with
  | some val => s.write cli.fd (val ++ str "\n")
  | none => s

/-- One line of `Who`. -/
def whoLine (s : Server) (cli : ClientInfo) (id : Nat) : Outcome Server := do
  let mark ← s.idAt id
  if mark ≠ 0 then
    let temp ← s.client (s.getClientByID (id + 1))
    return s.write cli.fd (decimal temp.id ++ str "\t" ++ temp.userName ++ str "\t" ++ temp.userIp ++
      str ":" ++ decimal temp.port ++ str "\t" ++
      (if (id : Int) + 1 = cli.id then str "<-me\n" else str "\n"))
  else return s

/-- `Who`. -/
def who (s : Server) (cli : ClientInfo) : Outcome Server :=
  (List.range maxClientSize).foldlM (whoLine · cli)
    (s.write cli.fd (str "<ID>\t<nickname>\t<IP:port>\t<indicate me>\n"))

/-- `Tell`. -/
def tell (s : Server) (cli : ClientInfo) (targetId : Int) (msg : Str) : Outcome Server := do
  let mark ← s.idAt (targetId - 1)
  if mark ≠ 0 then
    let target ← s.client (s.getClientByID targetId)
    return s.write target.fd (str "*** " ++ cli.userName ++ str " told you ***: " ++ msg ++ str "\n")
  else
    return s.write cli.fd (str "*** Error: user #" ++ decimal targetId ++
      str " does not exist yet. ***\n")

/-- `Name`, for the client behind the iterator. -/
def name (s : Server) (iter : Nat) (cli : ClientInfo) (newName : Str) : Outcome Server :=
  if s.clientTable.any (·.userName = newName) then
    .ok (s.write cli.fd (str "*** User '" ++ newName ++ str "' already exists. ***\n"))
  else
    broadCast (s.update iter (ClientInfo.rename newName)) .name [] (cli.rename newName) (-1)

/-- The built-in branches of `ExecCmd` and its return value; zero for a program
that is forked. -/
def builtin (s : Server) (iter : Nat) (cli : ClientInfo) (arguments : List Str) :
    Outcome (Server × Int) := do
  let prog ← arg s arguments 0
  if prog = str "printenv" then
    let var ← arg s arguments 1
    return (printEnv s cli var, 0)
  else if prog = str "setenv" then
    let var ← arg s arguments 1
    let erased := s.update iter (ClientInfo.forget var)
    let val ← arg erased arguments 2
    let stored := erased.update iter (ClientInfo.remember var val)
    return (stored.withEnvironment (stored.environment.setEnv var val), 0)
  else if prog = str "who" then
    return (← who s cli, 0)
  else if prog = str "yell" then
    let msg ← message s arguments 1
    return (← broadCast s .yell msg cli (-1), 0)
  else if prog = str "tell" then
    let number ← arg s arguments 1
    match stoi number with
    | none => .error (.uncaught, s)
    | some targetId =>
      let msg ← message s arguments 2
      return (← tell s cli targetId msg, 0)
  else if prog = str "name" then
    let newName ← arg s arguments 1
    return (← name s iter cli newName, 0)
  else if prog = str "exit" then
    return (s, -1)
  else return (s, 0)

/-- `IsExecutable`. -/
def isExecutable (world : World) (left : Nat) (prog : Str) (environment : Environment) : Bool :=
  [str "printenv", str "setenv", str "exit", str "who", str "tell", str "yell",
    str "name"].contains prog ||
  (environment.candidates prog).any (world.finds left)

end NetProg.SingleProc
