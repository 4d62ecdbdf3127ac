import NetProg.Socks.Session

/-!
# Requests that come in pieces

A request is eight header bytes and a user id that ends in a zero; the payload
follows. The session never looks at how many bytes a read gave it, so it takes the
request for what one read brings: a request is taken as it should be if it arrives
in a read of its own and is granted, or if it is rejected and nothing comes after
the read that brought it.
-/

namespace NetProg.Socks

open Outcomes

/-- A SOCKS4 request. -/
structure Request where
  header : Str
  user : Str
  eight : header.length = 8
  noZero : 0 ∉ user

/-- The bytes of a request. -/
def Request.bytes (request : Request) : Str := request.header ++ (request.user ++ [0])

/-- The session takes one decision, the one due to the header, and forwards exactly the payload if
that is a grant. A session that leaves an array or reads a decision twice has not taken it right.
-/
def TakenRight (conf : Option Str) (s : Session) (request : Request) (payload : Str)
    (chunks : List Str) : Prop :=
  ∃ after isGranted, receiveAll conf s chunks = .ok after ∧
    decision conf request.header = .ok isGranted ∧
    after.decisions = s.decisions ++ [isGranted] ∧
    (isGranted = true → after.forwarded = payload)

theorem Request.length_bytes (request : Request) : 9 ≤ request.bytes.length := by
  have eight := request.eight
  simp only [Request.bytes, List.length_append, List.length_singleton]
  omega

/-- A read of at least eight bytes of the request brings its header. -/
theorem decision_header {conf : Option Str} {request : Request} {payload first rest : Str}
    (cut : first ++ rest = request.bytes ++ payload) (long : 8 ≤ first.length) (old : Str) :
    decision conf (first ++ old) = decision conf request.header := by
  have header : first.take 8 = request.header := by
    have same := congrArg (List.take 8) cut
    rw [List.take_append_of_le_length long, Request.bytes, List.append_assoc,
      List.take_append_of_le_length (by rw [request.eight]), ← request.eight,
      List.take_length] at same
    rw [← request.eight]
    exact same
  rw [decision_take, List.take_append_of_le_length long, header]

/-- After a grant by its first read the session is right if the read was the
request. -/
theorem taken_after_grant {conf : Option Str} {s middle : Session} {request : Request}
    {payload first : Str} {rest : List Str} (cut : first ++ rest.flatten = request.bytes ++ payload)
    (read : receive conf s first = .ok middle) (relaying : middle.Relaying)
    (nothing : middle.forwarded = []) (decisions : middle.decisions = s.decisions ++ [true]) :
    TakenRight conf s request payload (first :: rest) ↔
      decision conf request.header = .ok true ∧ first = request.bytes := by
  obtain ⟨after, received, noMore, forwarded⟩ := receiveAll_relaying conf relaying rest
  rw [nothing, List.nil_append] at forwarded
  have all : receiveAll conf s (first :: rest) = .ok after := by
    rw [receiveAll, List.foldlM_cons, read]
    exact received
  have exact_ : after.forwarded = payload ↔ first = request.bytes := by
    rw [forwarded]
    constructor
    · intro same
      rw [same] at cut
      exact List.append_cancel_right cut
    · rintro rfl
      exact List.append_cancel_left cut
  rw [← exact_]
  constructor
  · rintro ⟨other, isGranted, received', decided, isDecision, isPayload⟩
    rw [all] at received'
    cases received'
    rw [noMore, decisions] at isDecision
    have granted : isGranted = true := by simpa using List.append_cancel_left isDecision.symm
    subst granted
    exact ⟨decided, isPayload rfl⟩
  · rintro ⟨decided, isPayload⟩
    exact ⟨after, true, all, decided, noMore.trans decisions, fun _ => isPayload⟩

/-- After a rejection by its first read the session is right if nothing follows. -/
theorem taken_after_rejection {conf : Option Str} {s middle : Session} {request : Request}
    {payload first : Str} {rest : List Str} (read : receive conf s first = .ok middle)
    (reading : middle.relay = none) (decisions : middle.decisions = s.decisions ++ [false]) :
    TakenRight conf s request payload (first :: rest) ↔
      decision conf request.header = .ok false ∧ rest = [] := by
  constructor
  · rintro ⟨after, isGranted, received, decided, isDecision, -⟩
    rw [receiveAll, List.foldlM_cons, read] at received
    cases rest with
    | nil =>
      cases received
      rw [decisions] at isDecision
      have rejected : isGranted = false := by simpa using List.append_cancel_left isDecision.symm
      subst rejected
      exact ⟨decided, rfl⟩
    | cons next more =>
      have further : receiveAll conf middle (next :: more) = .ok after := received
      rw [receiveAll, List.foldlM_cons] at further
      obtain ⟨second, readNext, later⟩ := bind_eq_ok.mp further
      simp only [receive, reading] at readNext
      obtain ⟨alsoGranted, -, second', -⟩ := readInfo_decides readNext
      obtain ⟨more', same⟩ := receiveAll_decisions later
      have lengths := congrArg List.length (same.trans isDecision)
      simp only [second', decisions, List.length_append, List.length_singleton] at lengths
      omega
  · rintro ⟨decided, rfl⟩
    exact ⟨middle, false, by rw [receiveAll, List.foldlM_cons, read]; rfl, decided, decisions,
      fun granted => by cases granted⟩

/-- For every rule file, every session that is reading, with whatever earlier requests left in its
buffer, every request, payload and cut: the session takes the request as it should if and only if
the request is granted and is exactly the first read, or is rejected and all arrives in one read.

Every read is taken for a whole request. Either condition puts the whole header into the first
one; what a granted request leaves to the relay, and a rejected one to the next read, decides the
rest. -/
theorem request_taken_right_iff (conf : Option Str) {s : Session} (reading : s.relay = none)
    (request : Request) (payload : Str) {chunks : List Str}
    (nonempty : ∀ chunk ∈ chunks, chunk ≠ [])
    (cut : chunks.flatten = request.bytes ++ payload) :
    TakenRight conf s request payload chunks ↔
      (decision conf request.header = .ok true ∧ chunks.head? = some request.bytes) ∨
      (decision conf request.header = .ok false ∧ chunks = [request.bytes ++ payload]) := by
  have long := request.length_bytes
  cases chunks with
  | nil =>
    have lengths := congrArg List.length cut
    simp only [List.flatten_nil, List.length_nil, List.length_append] at lengths
    omega
  | cons first rest =>
    rw [List.flatten_cons] at cut
    have alone : rest = [] ↔ first :: rest = [request.bytes ++ payload] := by
      constructor
      · rintro rfl
        rw [List.flatten_nil, List.append_nil] at cut
        rw [cut]
      · intro same
        exact (List.cons.inj same).2
    have received : receive conf s first = readInfo conf s first := by
      simp only [receive, reading]
    -- either way of being right needs the whole header in the first read
    have whole (either : (first :: rest).head? = some request.bytes ∨
        first :: rest = [request.bytes ++ payload]) :
        decision conf (first ++ s.message.drop first.length) = decision conf request.header := by
      apply decision_header cut
      rcases either with isFirst | isAll
      · rw [Option.some.inj isFirst]
        omega
      · rw [(List.cons.inj isAll).1, List.length_append]
        omega
    cases read : readInfo conf s first with
    | error fault =>
      constructor
      · rintro ⟨after, -, all, -⟩
        rw [receiveAll, List.foldlM_cons, received, read] at all
        cases all
      · have failed := readInfo_fails read
        rintro (⟨granted, isFirst⟩ | ⟨rejected, isAll⟩)
        · rw [whole (.inl isFirst), granted] at failed
          cases failed
        · rw [whole (.inr isAll), rejected] at failed
          cases failed
    | ok middle =>
      obtain ⟨isGranted, decided, decisions, grants, rejects⟩ := readInfo_decides read
      rw [← received] at read
      cases isGranted with
      | true =>
        obtain ⟨relaying, nothing⟩ := grants rfl
        rw [taken_after_grant cut read relaying nothing decisions, List.head?_cons,
          Option.some.injEq]
        constructor
        · exact .inl
        · rintro (granted | ⟨rejected, isAll⟩)
          · exact granted
          · rw [whole (.inr isAll), rejected] at decided
            cases decided
      | false =>
        rw [taken_after_rejection read (rejects rfl) decisions, alone]
        constructor
        · exact .inr
        · rintro (⟨granted, isFirst⟩ | rejected)
          · rw [whole (.inl isFirst), granted] at decided
            cases decided
          · exact rejected

/-- A CONNECT request to 10.0.0.1, port 80, by user `me`. -/
def connectToTen : Request := ⟨[4, 1, 0, 80, 10, 0, 0, 1], str "me", rfl, by decide⟩

/-- A rule file that grants it. -/
def grantsConnect : Option Str := some (str "permit c *.*.*.*\n")

theorem request_taken_right_in_a_read_of_its_own :
    TakenRight grantsConnect Session.start connectToTen (str "GET")
      [connectToTen.bytes, str "GE", str "T"] :=
  (request_taken_right_iff grantsConnect rfl connectToTen (str "GET") (by decide) (by decide)).mpr
    (.inl ⟨by decide +kernel, rfl⟩)

/-- The same request, its first byte in a read of its own, is rejected twice. -/
theorem split_request_is_rejected_twice :
    decision grantsConnect connectToTen.header = .ok true ∧
    [[4], connectToTen.bytes.drop 1].flatten = connectToTen.bytes ++ [] ∧
    ¬ TakenRight grantsConnect Session.start connectToTen []
      [[4], connectToTen.bytes.drop 1] := by
  refine ⟨by decide +kernel, by decide, ?_⟩
  rintro ⟨after, isGranted, received, -, decisions, -⟩
  have twice : (receiveAll grantsConnect Session.start [[4], connectToTen.bytes.drop 1]).toOption.map
      Session.decisions = some [false, false] := by decide +kernel
  rw [received] at twice
  have same : after.decisions = [false, false] := Option.some.inj twice
  rw [same] at decisions
  cases decisions

end NetProg.Socks
