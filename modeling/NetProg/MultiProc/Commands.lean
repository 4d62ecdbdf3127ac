import NetProg.MultiProc.Fifos

/-!
# The built-in commands

`ExecCmd` runs the built-in commands in the process of the client and forks for
every other program. Its arguments are C strings here; a built-in command reads
them without a look at how many there are.
-/

namespace NetProg.MultiProc

/-- The size of `user_name`. -/
def userNameSize : Nat := 20

/-- `args[k]`, a copy of the argument as a C string. -/
def arg (g : Server) (arguments : List Str) (k : Nat) : Outcome Str :=
  match arguments[k]? with
  | some text => .ok (cstr text)
  | none => .error (.argument, g)

/-- The words from position `k` on with a blank after each, and the last blank
taken off again by `pop_back`. -/
def message (g : Server) (arguments : List Str) (k : Nat) : Outcome Str :=
  match arguments.drop k with
  | [] => .error (.popBack, g)
  | rest => .ok (rest.flatMap (fun text => cstr text ++ str " ")).dropLast

/-- One line of `Who`, for the client that has the id. -/
def whoLine (curId : Nat) (g : Server) (id : Nat) : Outcome Server :=
  match getClientByID g.table (id + 1), getClientByID g.table curId with
  | none, _ => .ok g
  | some _, none => .error (.noClient, g)
  | some temp, some curCli => .ok (g.write curId (decimal temp.id ++ str "\t" ++ temp.userName ++
      str "\t" ++ temp.userIp ++ str ":" ++ decimal temp.port ++
      (if id + 1 = curCli.id then str "\t<-me\n" else str "\t\n")))

/-- `Who`. -/
def who (g : Server) (curId : Nat) : Outcome Server :=
  (List.range maxClientSize).foldlM (whoLine curId)
    (g.write curId (str "<ID>\t<nickname>\t<IP:port>\t<indicate me>\n"))

/-- `Tell`. The slot is read without a look at whether there is one. -/
def tell (g : Server) (curId : Nat) (targetId : Int) (msg : Str) : Outcome Server :=
  if targetId < 1 then .error (.idRange, g)
  else
    match g.table[targetId.toNat - 1]? with
    | none => .error (.idRange, g)
    | some slot =>
      if slot.valid then g.broadcast curId (.tell msg targetId.toNat)
      else .ok (g.write curId (str "*** Error: user #" ++ decimal targetId ++
        str " does not exist yet. ***\n"))

/-- The table with the name of one slot changed. -/
def rename (table : List ClientInfo) (curId : Nat) (newName : Str) : List ClientInfo :=
  table.modify (curId - 1) (fun client => { client with userName := newName })

/-- `Name`. Slots that are not valid are looked at as well; `strcpy` needs room for
the name and its zero. -/
def name (g : Server) (curId : Nat) (newName : Str) : Outcome Server :=
  if g.table.any (fun client => client.userName = newName) then
    .ok (g.write curId (str "*** User '" ++ newName ++ str "' already exists. ***\n"))
  else if newName.length < userNameSize then
    ({ g with table := rename g.table curId newName } : Server).broadcast curId .name
  else .error (.userName, g)

/-- The programs `ExecCmd` does not fork for. -/
def builtins : List Str :=
  [str "printenv", str "setenv", str "who", str "yell", str "tell", str "name", str "exit"]

/-- The built-in branches of `ExecCmd` and their return value. -/
def builtin (g : Server) (curId : Nat) (arguments : List Str) : Outcome (Server × Int) := do
  let prog ← arg g arguments 0
  if prog = str "printenv" then
    let var ← arg g arguments 1
    return (g.onShell curId (·.printEnv var), 0)
  else if prog = str "setenv" then
    let var ← arg g arguments 1
    let val ← arg g arguments 2
    return (g.onShell curId (·.setEnv var val), 0)
  else if prog = str "who" then
    return (← who g curId, 0)
  else if prog = str "yell" then
    let msg ← message g arguments 1
    return (← g.broadcast curId (.yell msg), 0)
  else if prog = str "tell" then
    let number ← arg g arguments 1
    match stoi number with
    | none => .error (.uncaught, g)
    | some targetId =>
      let msg ← message g arguments 2
      return (← tell g curId targetId msg, 0)
  else if prog = str "name" then
    let newName ← arg g arguments 1
    return (← name g curId newName, 0)
  else return (g, -1)

/-- `IsExecutable`. -/
def isExecutable (world : World) (left : Nat) (prog : Str) (environment : Environment) : Bool :=
  builtins.contains prog ||
  (environment.candidates prog).any (fun path => world.finds left (cstr path))

end NetProg.MultiProc
