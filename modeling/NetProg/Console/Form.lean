import NetProg.Console.Query

/-!
# The queries of the panel form

The form of the panel sends the fields `h0`, `p0`, `f0` to `h4`, `p4`, `f4` in this
order, all of them, also those left empty; the form for the console behind the proxy
sends `sh` and `sp` after them. The consoles go by the order alone. They get back what
was entered, since no field is empty as a whole: its name and equality sign are there.
-/

namespace NetProg.Console

/-- A text without the two characters that separate fields and values. -/
abbrev FormText := { text : Str // 38 ∉ text ∧ 61 ∉ text }

/-- What is entered for one session. -/
structure Row where
  host : FormText
  port : FormText
  file : FormText

/-- `name=value`. -/
def named (name : Str) (value : FormText) : Str := name ++ 61 :: value.val

/-- The fields of the sessions from a number on. -/
def formFields : Nat → List Row → List Str
  | _, [] => []
  | i, row :: rows =>
    named (str "h" ++ decimal i) row.host :: named (str "p" ++ decimal i) row.port ::
      named (str "f" ++ decimal i) row.file :: formFields (i + 1) rows

/-- The query of the form. -/
def formQuery (rows : Vector Row 5) : Str := [38].intercalate (formFields 0 rows.toList)

/-- The query of the form for the console behind the proxy. -/
def proxyFormQuery (rows : Vector Row 5) (sh sp : FormText) : Str :=
  [38].intercalate (formFields 0 rows.toList ++ [named (str "sh") sh, named (str "sp") sp])

/-- The entry a row asks for. -/
def Row.entry (row : Row) : Host := ⟨row.host.val, atoi row.port.val, row.file.val⟩

/-- A name the form uses: neither empty nor with a separator in it. -/
structure FieldName (name : Str) : Prop where
  nonempty : name ≠ []
  solid : 38 ∉ name ∧ 61 ∉ name

theorem FieldName.numbered (letter : UInt8) (plain : letter ≠ 38 ∧ letter ≠ 61) (i : Nat) :
    FieldName ([letter] ++ decimal i) := by
  obtain ⟨-, digits, -⟩ := decimal_digits i
  have absent {c : UInt8} (other : letter ≠ c) (noDigit : isdigit c = false) :
      c ∉ [letter] ++ decimal i := by
    intro member
    rcases List.mem_append.mp member with isLetter | inNumber
    · exact other (List.mem_singleton.mp isLetter).symm
    · rw [digits c inNumber] at noDigit
      cases noDigit
  constructor
  · exact List.cons_ne_nil letter (decimal i)
  · exact ⟨absent plain.1 (by decide), absent plain.2 (by decide)⟩

/-- A field of the form has no ampersand in it and is not empty. -/
theorem FieldName.named_solid {name : Str} (isName : FieldName name) (value : FormText) :
    named name value ≠ [] ∧ ∀ c ∈ named name value, decide (c = 38) = false := by
  constructor
  · simp [named]
  · intro c member
    apply decide_eq_false
    rintro rfl
    rcases List.mem_append.mp member with inName | inValue
    · exact isName.solid.1 inName
    · rcases List.mem_cons.mp inValue with isEqual | inText
      · exact absurd isEqual (by decide)
      · exact value.property.1 inText

/-- Its value is what was entered. -/
theorem FieldName.itemValue_named {name : Str} (isName : FieldName name) (value : FormText) :
    itemValue (named name value) = some value.val := by
  have solid {text : Str} (absent : 61 ∉ text) : ∀ c ∈ text, decide (c = 61) = false := by
    intro c member
    apply decide_eq_false
    rintro rfl
    exact absent member
  have plain := solid value.property.2
  have alone : ∀ c ∈ value.val.head?, decide (c = 61) = false :=
    fun c first => plain c (List.mem_of_head? first)
  rw [itemValue, named,
    Tokens.split_cons (solid isName.solid.2) (decide_eq_true rfl) alone, Tokens.split_solid plain]
  rfl

theorem FieldName.textOf_named {name : Str} (isName : FieldName name) (value : FormText) :
    textOf (named name value) = value.val := by
  rw [textOf, isName.itemValue_named]
  rfl

theorem FieldName.portOf_named {name : Str} (isName : FieldName name) (value : FormText) :
    portOf (named name value) = atoi value.val := by
  rw [portOf, isName.itemValue_named]
  rfl

theorem sh_name : FieldName (str "sh") := ⟨by decide, by decide⟩

theorem sp_name : FieldName (str "sp") := ⟨by decide, by decide⟩

theorem formFields_length (i : Nat) (rows : List Row) :
    (formFields i rows).length = 3 * rows.length := by
  induction rows generalizing i with
  | nil => rfl
  | cons row rows ih =>
    simp only [formFields, List.length_cons, ih]
    omega

/-- Every field of the form can be told from its neighbours. -/
theorem formFields_solid (i : Nat) (rows : List Row) :
    ∀ text ∈ formFields i rows, text ≠ [] ∧ ∀ c ∈ text, decide (c = 38) = false := by
  induction rows generalizing i with
  | nil => simp [formFields]
  | cons row rows ih =>
    have host := (FieldName.numbered 104 (by decide) i).named_solid row.host
    have port := (FieldName.numbered 112 (by decide) i).named_solid row.port
    have file := (FieldName.numbered 102 (by decide) i).named_solid row.file
    simp only [formFields, List.forall_mem_cons]
    exact ⟨host, port, file, ih (i + 1)⟩

/-- The entry made from the fields of a row is the one the row asks for. -/
theorem hostOf_formFields (i : Nat) (rows : List Row) (more : List Str) (j : Nat)
    (inside : j < rows.length) :
    hostOf (formFields i rows ++ more) j = rows[j].entry := by
  induction rows generalizing i j with
  | nil => exact absurd inside (Nat.not_lt_zero j)
  | cons row rows ih =>
    cases j with
    | zero =>
      have host := (FieldName.numbered 104 (by decide) i).textOf_named row.host
      have port := (FieldName.numbered 112 (by decide) i).portOf_named row.port
      have file := (FieldName.numbered 102 (by decide) i).textOf_named row.file
      exact congr (congr (congrArg Host.mk host) port) file
    | succ j => exact ih (i + 1) j (Nat.lt_of_succ_lt_succ inside)

/-- The query is split where its fields were put together. -/
theorem splitQuery_intercalate {fields : List Str} (some : fields ≠ [])
    (solid : ∀ text ∈ fields, text ≠ [] ∧ ∀ c ∈ text, decide (c = 38) = false) :
    splitQuery ([38].intercalate fields) = fields :=
  Tokens.split_intercalate (by decide) some (fun text member => (solid text member).1)
    (fun text member => (solid text member).2)

/-- Behind fifteen fields of a form the table is what was entered. -/
theorem filled_formFields (rows : Vector Row 5) (more : List Str) (host : Vector Host 5) :
    filled (formFields 0 rows.toList ++ more) host 15 = rows.map Row.entry := by
  apply Vector.ext
  intro j inside
  have below : 3 * j < 15 := by omega
  have entry := hostOf_formFields 0 rows.toList more j (by simpa using inside)
  simp [filled, below, entry]

/-- For all contents of the five rows of the form and of the proxy's fields: what is entered in
the form arrives in the table of the consoles, row by row, and the proxy's host and port arrive
where they belong and nowhere else.

The query string is shown to be split into the fields it was joined from. Then the loop of the
console is run on these, with the invariant that the rows before the current one are filled. -/
theorem form_query_round_trip (rows : Vector Row 5) (sh sp : FormText) (host : Vector Host 5) :
    doResolve (formQuery rows) host = .ok (rows.map Row.entry) ∧
      doResolveProxy (proxyFormQuery rows sh sp) host =
        .ok ⟨rows.map Row.entry, sh.val, atoi sp.val⟩ := by
  have count : (formFields 0 rows.toList).length = 15 := by
    simp [formFields_length]
  have solid := formFields_solid 0 rows.toList
  constructor
  · have nonempty : formFields 0 rows.toList ≠ [] := List.ne_nil_of_length_pos (by omega)
    have split : splitQuery (formQuery rows) = formFields 0 rows.toList :=
      splitQuery_intercalate nonempty solid
    have fifteen : fieldCount (formQuery rows) = 15 := by
      rw [← splitQuery_length, split, count]
    have ends := doResolve_ends (formQuery rows) host
    rw [split, fifteen] at ends
    cases outcome : doResolve (formQuery rows) host with
    | ok after =>
      rw [(ends.returned outcome).2]
      simpa using filled_formFields rows [] host
    | error e => exact absurd (ends.raised outcome) (by decide)
  · have split : splitQuery (proxyFormQuery rows sh sp) =
        formFields 0 rows.toList ++ [named (str "sh") sh, named (str "sp") sp] := by
      apply splitQuery_intercalate
      · simp
      · intro text member
        rcases List.mem_append.mp member with inRows | ofProxy
        · exact solid text inRows
        · rcases List.mem_cons.mp ofProxy with rfl | last
          · exact sh_name.named_solid sh
          · rw [List.mem_singleton.mp last]
            exact sp_name.named_solid sp
    have seventeen : fieldCount (proxyFormQuery rows sh sp) = 17 := by
      rw [← splitQuery_length, split, List.length_append, count]
      rfl
    have ends := doResolveProxy_ends (proxyFormQuery rows sh sp) host
    rw [split, seventeen] at ends
    cases outcome : doResolveProxy (proxyFormQuery rows sh sp) host with
    | ok after =>
      rw [(ends.returned outcome).2]
      have proxyHost : (formFields 0 rows.toList ++ [named (str "sh") sh,
          named (str "sp") sp]).getD 15 [] = named (str "sh") sh := by
        simp [count]
      have proxyPort : (formFields 0 rows.toList ++ [named (str "sh") sh,
          named (str "sp") sp]).getD 16 [] = named (str "sp") sp := by
        simp [count]
      rw [filled_formFields, proxyHost, proxyPort, sh_name.textOf_named, sp_name.portOf_named]
    | error e => exact absurd (ends.raised outcome) (by decide)

end NetProg.Console
