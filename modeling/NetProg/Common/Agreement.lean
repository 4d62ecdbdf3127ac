import NetProg.MultiProc.Sessions
import NetProg.Npshell.Sessions
import NetProg.SingleProc.Ownership

/-!
# The shells agree on the common language

Each of the three shells has the outline of the reference shell on a session in the
common language, so they have the outlines of each other: the same calls, up to the
numbers of the descriptors, and the same counts in their pipe tables.
-/

namespace NetProg.Common

/-- The three shells on one session in the common language, each starting where its own program
starts one: they issue the same calls, with the same arguments and the same connections, and end
with the same counts in their pipe tables, or fail after the same calls.

Each command loop is shown to have the outline of the reference loop; the loops are never compared
with one another, so that a change to one of them leaves the proofs of the other two alone. -/
theorem shells_agree {npshell : Npshell.Shell} {single : SingleProc.Server} {cli : Nat}
    {c : SingleProc.ClientInfo} {multi : MultiProc.Server} {curId : Nat}
    (first : Npshell.Ready npshell) (second : SingleProc.Ready single cli c)
    (third : MultiProc.Ready multi curId)
    {lines : List ((Str × World) × (Nat → MultiProc.Writer → Bool))}
    (understood : ∀ line ∈ lines, common true (words line.1.1) = true) :
    Npshell.outlineFrom npshell.calls.length (Npshell.session npshell (lines.map Prod.fst)) =
      SingleProc.outlineFrom single.calls.length cli c.fd
        (SingleProc.session cli c.fd single (lines.map Prod.fst)) ∧
    SingleProc.outlineFrom single.calls.length cli c.fd
        (SingleProc.session cli c.fd single (lines.map Prod.fst)) =
      MultiProc.outlineFrom (multi.shells curId).calls.length curId
        (MultiProc.session curId multi lines) := by
  have same : ∀ line ∈ lines.map Prod.fst, common true (words line.1) = true := by
    intro line member
    obtain ⟨scheduled, isLine, rfl⟩ := List.mem_map.mp member
    exact understood scheduled isLine
  have isSingle := SingleProc.session_outline second same
  constructor
  · exact (Npshell.session_outline first same).trans isSingle.symm
  · exact isSingle.trans (MultiProc.session_outline third understood).symm

/-- Lines with numbered pipes into each other, a shared environment variable and a
file. -/
def commonLines : List ((Str × World) × (Nat → MultiProc.Writer → Bool)) :=
  [str "ls -l |2 cat foo !1", str "setenv PATH bin | number |3", str "number > out",
    str "printenv PATH"].map (fun line => ((line, World.plain), fun _ _ => true))

/-- The standard descriptors, one by one. -/
theorem standard_open {p : Process} (input : p.object 0 ≠ none) (output : p.object 1 ≠ none)
    (error : p.object 2 ≠ none) (n : Int) (nonneg : 0 ≤ n) (below : n < 3) :
    p.object n ≠ none := by
  have among : n = 0 ∨ n = 1 ∨ n = 2 := by omega
  rcases among with rfl | rfl | rfl
  · exact input
  · exact output
  · exact error

/-- A shell on a terminal, the first client of the single-process server and the first
process of the multi-process server agree on them. -/
theorem shells_agree_on_commonLines : ∃ single c,
    SingleProc.acceptClient .initial (str "127.0.0.1") 4001 = .ok single ∧
    single.clientTable = [c] ∧
    Npshell.outlineFrom 0 (Npshell.session (.initial []) (commonLines.map Prod.fst)) =
      SingleProc.outlineFrom single.calls.length 0 c.fd
        (SingleProc.session 0 c.fd single (commonLines.map Prod.fst)) ∧
    SingleProc.outlineFrom single.calls.length 0 c.fd
        (SingleProc.session 0 c.fd single (commonLines.map Prod.fst)) =
      MultiProc.outlineFrom 0 1 (MultiProc.session 1 .initial commonLines) := by
  obtain ⟨single, entered, -⟩ :=
    SingleProc.acceptClient_enters .initial (str "127.0.0.1") 4001
  have accepted : SingleProc.serve .initial (.accept (str "127.0.0.1") 4001) = .ok single :=
    entered
  have settled : SingleProc.Settled False single.tables := by
    have closes : SingleProc.ClosesOwnId .initial (.accept (str "127.0.0.1") 4001) := trivial
    have careful : SingleProc.Careful false .initial (.accept (str "127.0.0.1") 4001) := trivial
    have moved := SingleProc.serve_moves SingleProc.Agree.initial closes accepted
    simpa using SingleProc.Settled.moves SingleProc.Settled.initial careful moved
  have vectors : (SingleProc.acceptClient .initial (str "127.0.0.1") 4001).toOption.map
      (fun s => s.clientTable.map SingleProc.ClientInfo.pipeVector) = some [[]] := by
    decide +kernel
  rw [entered] at vectors
  obtain ⟨c, table, empty⟩ := List.map_eq_singleton_iff.mp (Option.some.inj vectors)
  have found : single.clientTable[0]? = some c := by rw [table]; rfl
  have terminal : Npshell.Ready (.initial []) :=
    ⟨standard_open (by decide) (by decide) (by decide), rfl⟩
  have process : MultiProc.Ready .initial 1 :=
    ⟨standard_open (by decide) (by decide) (by decide), rfl⟩
  have understood : ∀ line ∈ commonLines, common true (words line.1.1) = true := by
    decide +kernel
  exact ⟨single, c, entered, table,
    shells_agree terminal (settled.ready found empty) process understood⟩

end NetProg.Common
