import DataAgentSystem.Containers.UnorderedMap
import DataAgentSystem.Text.PythonText

/-! Tables as the `csv` module of Python reads them, in its dialect `excel`. The reader is a
machine with a state for each place in a field; a field in quotes may hold the ends of
fields and lines. Records are read from lines in this dialect, and so from lines of
other writers where no field needs quotes. -/

namespace DataAgentSystem.Text

open Containers

def comma : Byte := 44
def quote : Byte := 34

/-! ### Reading -/

inductive CsvState where
  | startRecord | startField | inField | inQuotedField | quoteInQuotedField | eatCrnl
  deriving DecidableEq

/-- The reader within a record: its state, the field that it reads and the fields before. -/
structure CsvReader where
  state : CsvState := .startRecord
  field : Bytes := []
  fields : List Bytes := []

/-- `field_size_limit`, as it is unless it is set. -/
def fieldLimit : ℕ := 131072

namespace CsvReader

def saveField (reader : CsvReader) (state : CsvState) : CsvReader where
  state
  fields := reader.fields ++ [reader.field]

def addChar (reader : CsvReader) (state : CsvState) (c : Byte) : Option CsvReader :=
  if fieldLimit ≤ reader.field.length then none
  else some { reader with state, field := reader.field ++ [c] }

def endsRecord (c : Byte) : Bool := c = newline ∨ c = carriageReturn

/-- A character at the start of a field. -/
def startField (reader : CsvReader) (c : Byte) : Option CsvReader :=
  if endsRecord c then some (reader.saveField .eatCrnl)
  else if c = quote then some { reader with state := .inQuotedField }
  else if c = comma then some (reader.saveField .startField)
  else reader.addChar .inField c

/-- One character. -/
def step (reader : CsvReader) (c : Byte) : Option CsvReader :=
  if c = 0 then none
  else match reader.state with
  | .startRecord =>
    if endsRecord c then some { reader with state := .eatCrnl }
    else reader.startField c
  | .startField => reader.startField c
  | .inField =>
    if endsRecord c then some (reader.saveField .eatCrnl)
    else if c = comma then some (reader.saveField .startField)
    else reader.addChar .inField c
  | .inQuotedField =>
    if c = quote then some { reader with state := .quoteInQuotedField }
    else reader.addChar .inQuotedField c
  | .quoteInQuotedField =>
    if c = quote then reader.addChar .inQuotedField c
    else if c = comma then some (reader.saveField .startField)
    else if endsRecord c then some (reader.saveField .eatCrnl)
    else reader.addChar .inField c
  | .eatCrnl => if endsRecord c then some reader else none

/-- The end of a line, after its last character. -/
def endLine (reader : CsvReader) : CsvReader :=
  match reader.state with
  | .startRecord | .inQuotedField => reader
  | .startField | .inField | .quoteInQuotedField => reader.saveField .startRecord
  | .eatCrnl => { reader with state := .startRecord }

end CsvReader

/-- A line ends here; a carriage return and a newline end it together. -/
def lineEndsAt (c : Byte) (rest : Bytes) : Bool :=
  c = newline ∨ (c = carriageReturn ∧ rest.head? ≠ some newline) ∨ rest = []

/-- The records of a text, none if the reader raises an error. -/
def csvRowsFrom : CsvReader → Bytes → Option (List (List Bytes))
  | reader, [] =>
    if reader.state = .inQuotedField then some [(reader.saveField .startRecord).fields] else some []
  | reader, c :: rest => do
    let reader ← reader.step c
    if lineEndsAt c rest then
      if reader.endLine.state = .startRecord then
        return reader.endLine.fields :: (← csvRowsFrom {} rest)
      else csvRowsFrom reader.endLine rest
    else csvRowsFrom reader rest

/-- `csv.reader` on a text. -/
def csvRows (text : Bytes) : Option (List (List Bytes)) := csvRowsFrom {} text

/-- What `csv.DictReader` finds: the names in the first record, and the others that are not
empty. -/
structure CsvTable where
  fieldnames : List Bytes := []
  rows : List (List Bytes) := []

def csvTable (text : Bytes) : Option CsvTable := do
  match ← csvRows text with
  | [] => return {}
  | fieldnames :: rows => return { fieldnames, rows := rows.filter (· ≠ []) }

/-- The dictionary of a row, with `None` under the names for which it is too short. -/
def CsvTable.record (table : CsvTable) (row : List Bytes) : UnorderedMap (Option Bytes) :=
  UnorderedMap.assignAll Prod.fst (fun column => row[column.2]?) table.fieldnames.zipIdx ∅

/-- A value of a row within another string. -/
def formatCell (cell : Option Bytes) : Bytes := cell.getD (ascii "None")

/-! ### Records -/

/-- A field that has to stand in quotes. -/
def needsQuotes (field : Bytes) : Bool :=
  field.any fun c => c = comma ∨ c = quote ∨ CsvReader.endsRecord c

def doubleQuotes : Bytes → Bytes
  | [] => []
  | c :: cs => if c = quote then quote :: quote :: doubleQuotes cs else c :: doubleQuotes cs

def csvField (field : Bytes) : Bytes :=
  if needsQuotes field then quote :: (doubleQuotes field ++ [quote]) else field

/-- The fields of a record; a single empty one stands in quotes. -/
def csvRecord (fields : List Bytes) : Bytes :=
  if fields = [[]] then [quote, quote] else List.intercalate [comma] (fields.map csvField)

/-! ### Reading records -/

/-- A field that the reader takes. -/
structure Readable (field : Bytes) : Prop where
  nul : (0 : Byte) ∉ field
  length : field.length ≤ fieldLimit

/-- What ends a line. -/
def IsTerminator (terminator : Bytes) : Prop :=
  terminator = [newline] ∨ terminator = [carriageReturn, newline]

variable {reader : CsvReader} {field rest terminator : Bytes} {fields : List Bytes}
  {rows : List (List Bytes)}

theorem IsTerminator.ne_nil (h : IsTerminator terminator) : terminator ≠ [] := by
  rcases h with rfl | rfl <;> simp

/-- Within a line the reader goes on. -/
theorem csvRowsFrom_cons {c : Byte} {reader' : CsvReader} (hstep : reader.step c = some reader')
    (hends : CsvReader.endsRecord c = false) (hrest : rest ≠ []) :
    csvRowsFrom reader (c :: rest) = csvRowsFrom reader' rest := by
  have hwithin : lineEndsAt c rest = false := by
    simp only [CsvReader.endsRecord, decide_eq_false_iff_not, not_or] at hends
    simp [lineEndsAt, hends, hrest]
  rw [csvRowsFrom, hstep, Option.bind_eq_bind, Option.bind_some, hwithin, if_neg Bool.false_ne_true]

/-- Nothing ends within quotes. -/
theorem csvRowsFrom_cons_quoted {c : Byte} {reader' : CsvReader}
    (hstep : reader.step c = some reader') (hstate : reader'.state = .inQuotedField) :
    csvRowsFrom reader (c :: rest) = csvRowsFrom reader' rest := by
  have hend : reader'.endLine = reader' := by simp [CsvReader.endLine, hstate]
  rw [csvRowsFrom, hstep, Option.bind_eq_bind, Option.bind_some, hend, hstate]
  simp

/-- Plain characters go to the field. -/
theorem csvRowsFrom_plain (hplain : needsQuotes field = false) (hnul : (0 : Byte) ∉ field)
    (hstate : reader.state = .inField) (hlength : reader.field.length + field.length ≤ fieldLimit)
    (hrest : rest ≠ []) :
    csvRowsFrom reader (field ++ rest) =
      csvRowsFrom { reader with field := reader.field ++ field } rest := by
  induction field generalizing reader with
  | nil => simp
  | cons c cs ih =>
    obtain ⟨state, start, fields⟩ := reader
    obtain rfl : state = .inField := hstate
    simp only [needsQuotes, List.any_cons, Bool.or_eq_false_iff,
      decide_eq_false_iff_not, not_or] at hplain
    obtain ⟨⟨hcomma, hquote, hends⟩, hplain⟩ := hplain
    rw [List.mem_cons, not_or] at hnul
    simp only [List.length_cons] at hlength
    have hstep : CsvReader.step ⟨.inField, start, fields⟩ c =
        some ⟨.inField, start ++ [c], fields⟩ := by
      simp [CsvReader.step, CsvReader.addChar, Ne.symm hnul.1, hends, hcomma,
        show ¬fieldLimit ≤ start.length by omega]
    rw [List.cons_append, csvRowsFrom_cons hstep (Bool.of_not_eq_true hends) (by simp [hrest]),
      ih hplain hnul.2 rfl (by simp; omega)]
    simp

/-- So does what stands in quotes. -/
theorem csvRowsFrom_quoted (hnul : (0 : Byte) ∉ field) (hstate : reader.state = .inQuotedField)
    (hlength : reader.field.length + field.length ≤ fieldLimit) :
    csvRowsFrom reader (doubleQuotes field ++ rest) =
      csvRowsFrom { reader with field := reader.field ++ field } rest := by
  induction field generalizing reader with
  | nil => simp [doubleQuotes]
  | cons c cs ih =>
    obtain ⟨state, start, fields⟩ := reader
    obtain rfl : state = .inQuotedField := hstate
    rw [List.mem_cons, not_or] at hnul
    simp only [List.length_cons] at hlength
    have hroom : ¬fieldLimit ≤ start.length := by omega
    have hadd : csvRowsFrom ⟨.inQuotedField, start ++ [c], fields⟩ (doubleQuotes cs ++ rest) =
        csvRowsFrom ⟨.inQuotedField, start ++ c :: cs, fields⟩ rest := by
      rw [ih hnul.2 rfl (by simp; omega)]
      simp
    by_cases hquote : c = quote
    · subst hquote
      have hopen : CsvReader.step ⟨.inQuotedField, start, fields⟩ quote =
          some ⟨.quoteInQuotedField, start, fields⟩ := rfl
      have hclose : CsvReader.step ⟨.quoteInQuotedField, start, fields⟩ quote =
          some ⟨.inQuotedField, start ++ [quote], fields⟩ := by
        simp [CsvReader.step, CsvReader.addChar, hroom, show quote ≠ 0 by decide]
      rw [doubleQuotes, if_pos rfl, List.cons_append, List.cons_append,
        csvRowsFrom_cons hopen rfl (by simp), csvRowsFrom_cons_quoted hclose rfl, hadd]
    · have hstep : CsvReader.step ⟨.inQuotedField, start, fields⟩ c =
          some ⟨.inQuotedField, start ++ [c], fields⟩ := by
        simp [CsvReader.step, CsvReader.addChar, Ne.symm hnul.1, hquote, hroom]
      rw [doubleQuotes, if_neg hquote, List.cons_append, csvRowsFrom_cons_quoted hstep rfl, hadd]

/-- The reader has read a field that it has not saved yet. -/
def CsvReader.AtEnd (reader : CsvReader) (field : Bytes) (fields : List Bytes) : Prop :=
  reader.field = field ∧ reader.fields = fields ∧
    (reader.state = .inField ∨ reader.state = .quoteInQuotedField ∨ reader.state = .startField)

/-- A field is read from where it starts. -/
theorem exists_csvRowsFrom_field (hfield : Readable field)
    (hstart : reader.state = .startField ∨ (reader.state = .startRecord ∧ field ≠ []))
    (hempty : reader.field = []) (hrest : rest ≠ []) :
    ∃ reader', reader'.AtEnd field reader.fields ∧ csvRowsFrom reader (csvField field ++ rest) =
      csvRowsFrom reader' rest := by
  obtain ⟨state, start, fields⟩ := reader
  obtain rfl : start = [] := hempty
  -- at either start the first character is treated alike
  have hstep : ∀ c, c ≠ 0 → CsvReader.endsRecord c = false →
      CsvReader.step ⟨state, [], fields⟩ c = CsvReader.startField ⟨state, [], fields⟩ c := by
    intro c hc hends
    rcases hstart with hstart | ⟨hstart, -⟩
    · obtain rfl : state = .startField := hstart
      simp [CsvReader.step, hc]
    · obtain rfl : state = .startRecord := hstart
      simp [CsvReader.step, hc, hends]
  cases hquotes : needsQuotes field with
  | true =>
    have hopen : CsvReader.step ⟨state, [], fields⟩ quote = some ⟨.inQuotedField, [], fields⟩ := by
      rw [hstep quote (by decide) rfl]
      rfl
    have hclose : CsvReader.step ⟨.inQuotedField, field, fields⟩ quote =
        some ⟨.quoteInQuotedField, field, fields⟩ := rfl
    refine ⟨⟨.quoteInQuotedField, field, fields⟩, ⟨rfl, rfl, .inr (.inl rfl)⟩, ?_⟩
    rw [csvField, if_pos hquotes, List.cons_append, csvRowsFrom_cons hopen rfl (by simp),
      List.append_assoc, csvRowsFrom_quoted hfield.nul rfl (by simpa using hfield.length)]
    simpa using csvRowsFrom_cons hclose rfl hrest
  | false =>
    rw [csvField, if_neg (by simp [hquotes])]
    cases field with
    | nil =>
      obtain rfl : state = .startField := hstart.resolve_right fun h => h.2 rfl
      exact ⟨⟨.startField, [], fields⟩, ⟨rfl, rfl, .inr (.inr rfl)⟩, rfl⟩
    | cons c cs =>
      have hplain := hquotes
      simp only [needsQuotes, List.any_cons, Bool.or_eq_false_iff,
        decide_eq_false_iff_not, not_or] at hplain
      obtain ⟨⟨hcomma, hquote, hends⟩, hplain⟩ := hplain
      obtain ⟨hnul, hlength⟩ := hfield
      rw [List.mem_cons, not_or] at hnul
      have hfirst : CsvReader.step ⟨state, [], fields⟩ c = some ⟨.inField, [c], fields⟩ := by
        rw [hstep c (Ne.symm hnul.1) (Bool.of_not_eq_true hends)]
        simp [CsvReader.startField, CsvReader.addChar, hends, hquote, hcomma, fieldLimit]
      refine ⟨⟨.inField, c :: cs, fields⟩, ⟨rfl, rfl, .inl rfl⟩, ?_⟩
      rw [List.cons_append, csvRowsFrom_cons hfirst (Bool.of_not_eq_true hends) (by simp [hrest]),
        csvRowsFrom_plain (by simpa [needsQuotes] using hplain) hnul.2
          rfl (by simpa [Nat.add_comm] using hlength) hrest]
      rfl

/-- A comma ends a field. -/
theorem csvRowsFrom_comma (h : reader.AtEnd field fields) (hrest : rest ≠ []) :
    csvRowsFrom reader (comma :: rest) = csvRowsFrom ⟨.startField, [], fields ++ [field]⟩ rest := by
  obtain ⟨state, field, fields⟩ := reader
  obtain ⟨rfl, rfl, rfl | rfl | rfl⟩ := h <;> exact csvRowsFrom_cons rfl rfl hrest

/-- So does the end of the line, and with it the record. -/
theorem csvRowsFrom_terminator (hterminator : IsTerminator terminator)
    (h : reader.AtEnd field fields) :
    csvRowsFrom reader (terminator ++ rest) = (csvRowsFrom {} rest).map
      ((fields ++ [field]) :: ·) := by
  have hstep : ∀ c, CsvReader.endsRecord c = true →
      reader.step c = some ⟨.eatCrnl, [], fields ++ [field]⟩ := by
    intro c hc
    have hnul : c ≠ 0 := by
      rintro rfl
      exact absurd hc (by decide)
    have hquote : c ≠ quote := by
      rintro rfl
      exact absurd hc (by decide)
    have hcomma : c ≠ comma := by
      rintro rfl
      exact absurd hc (by decide)
    obtain ⟨state, field, fields⟩ := reader
    obtain ⟨rfl, rfl, rfl | rfl | rfl⟩ := h <;>
      simp [CsvReader.step, CsvReader.startField, hnul, hc, hquote, hcomma, CsvReader.saveField]
  have hnewline : ∀ reader : CsvReader,
    reader.step newline = some ⟨.eatCrnl, [], fields ++ [field]⟩ →
      csvRowsFrom reader (newline :: rest) = (csvRowsFrom {} rest).map
          ((fields ++ [field]) :: ·) := by
    intro reader hlast
    rw [csvRowsFrom, hlast]
    cases csvRowsFrom {} rest <;> simp_all [lineEndsAt, CsvReader.endLine]
  rcases hterminator with rfl | rfl
  · exact hnewline reader (hstep newline (by decide))
  · rw [List.cons_append, csvRowsFrom, hstep carriageReturn (by decide)]
    exact hnewline ⟨.eatCrnl, [], fields ++ [field]⟩ rfl

theorem intercalate_csvFields (field next : Bytes) (later : List Bytes) :
    List.intercalate [comma] ((field :: next :: later).map csvField) ++ rest =
      csvField field ++
        comma :: (List.intercalate [comma] ((next :: later).map csvField) ++ rest) := by
  simp [List.intercalate]

/-- The fields that are left of a record. -/
theorem csvRowsFrom_fields (hterminator : IsTerminator terminator) {field : Bytes}
    {later : List Bytes} {saved : List Bytes} (hfields : ∀ field' ∈ field :: later, Readable field')
    {state : CsvState} (hstart : state = .startField ∨ (state = .startRecord ∧ field ≠ [])) :
    csvRowsFrom ⟨state, [], saved⟩
      (List.intercalate [comma] ((field :: later).map csvField) ++ (terminator ++ rest)) =
      (csvRowsFrom {} rest).map ((saved ++ field :: later) :: ·) := by
  induction later generalizing field saved state with
  | nil =>
    obtain ⟨reader, hend, hread⟩ :=
      @exists_csvRowsFrom_field ⟨state, [], saved⟩ field (terminator ++ rest)
      (hfields field List.mem_cons_self) hstart rfl (by simp [hterminator.ne_nil])
    rw [List.map_singleton, List.intercalate_singleton, hread,
      csvRowsFrom_terminator hterminator hend]
  | cons next later ih =>
    rw [List.forall_mem_cons] at hfields
    obtain ⟨reader, hend, hread⟩ := @exists_csvRowsFrom_field ⟨state, [], saved⟩ field
      (comma :: (List.intercalate [comma] ((next :: later).map csvField) ++ (terminator ++ rest)))
        hfields.1 hstart rfl (by simp)
    rw [intercalate_csvFields, hread, csvRowsFrom_comma hend (by simp [hterminator.ne_nil]),
      ih hfields.2 (.inl rfl)]
    simp

/-- A record is read from its line. -/
theorem csvRowsFrom_record (hterminator : IsTerminator terminator)
    (hfields : ∀ field ∈ fields, Readable field) :
    csvRowsFrom {} (csvRecord fields ++ (terminator ++ rest)) =
      (csvRowsFrom {} rest).map (fields :: ·) := by
  cases fields with
  | nil =>
    rcases hterminator with rfl | rfl <;> cases hrest : csvRowsFrom {} rest <;>
      simp [csvRecord, csvRowsFrom, CsvReader.step, CsvReader.endsRecord, lineEndsAt,
        CsvReader.endLine, hrest, newline, carriageReturn]
  | cons field later =>
    by_cases hempty : field = []
    · subst hempty
      cases later with
      | nil =>
        have hend : CsvReader.AtEnd ⟨.quoteInQuotedField, [], []⟩ [] [] :=
          ⟨rfl, rfl, .inr (.inl rfl)⟩
        rw [csvRecord, if_pos rfl, List.cons_append, List.cons_append, List.nil_append,
          @csvRowsFrom_cons {} _ quote ⟨.inQuotedField, [], []⟩ rfl rfl (by simp),
          @csvRowsFrom_cons ⟨.inQuotedField, [], []⟩ _ quote ⟨.quoteInQuotedField, [], []⟩
            rfl rfl (by simp [hterminator.ne_nil]),
          csvRowsFrom_terminator hterminator hend]
        rfl
      | cons next later =>
        -- the comma already ends the empty field
        have hcomma : CsvReader.step {} comma = some ⟨.startField, [], [[]]⟩ := rfl
        rw [List.forall_mem_cons] at hfields
        rw [csvRecord, if_neg (by simp), intercalate_csvFields, show csvField [] = [] from rfl,
          List.nil_append, csvRowsFrom_cons hcomma rfl (by simp [hterminator.ne_nil]),
          csvRowsFrom_fields hterminator hfields.2 (.inl rfl)]
        rfl
    · rw [csvRecord, if_neg (by simp [hempty]),
        csvRowsFrom_fields hterminator hfields (.inr ⟨rfl, hempty⟩)]
      rfl

/-- Lines of records are read as these records. -/
theorem csvRows_records (hterminator : IsTerminator terminator)
    (hrows : ∀ row ∈ rows, ∀ field ∈ row, Readable field) :
    csvRows (rows.flatMap fun row => csvRecord row ++ terminator) = some rows := by
  unfold csvRows
  induction rows with
  | nil => rfl
  | cons row rows ih =>
    rw [List.forall_mem_cons] at hrows
    rw [List.flatMap_cons, List.append_assoc, csvRowsFrom_record hterminator hrows.1, ih hrows.2]
    rfl

/-- Fields that need no quotes, between commas, are a record. -/
theorem csvRecord_plain (hplain : ∀ field ∈ fields, needsQuotes field = false)
    (hne : fields ≠ [[]]) :
    csvRecord fields = List.intercalate [comma] fields := by
  have hmap : fields.map csvField = fields := by
    refine (List.map_congr_left (g := id) fun field hfield => ?_).trans (List.map_id fields)
    rw [csvField, if_neg (by simp [hplain field hfield]), id]
  rw [csvRecord, if_neg hne, hmap]

/-- A field that the reader takes, and that needs no quotes. -/
structure Plain (field : Bytes) : Prop extends Readable field where
  quotes : needsQuotes field = false

/-- So lines of plain fields are read as the records that they are. -/
theorem csvRows_lines (hplain : ∀ row ∈ rows, ∀ field ∈ row, Plain field)
    (hne : ∀ row ∈ rows, row ≠ [[]]) :
    csvRows (unlines newline (rows.map (List.intercalate [comma]))) = some rows := by
  have hlines : unlines newline (rows.map (List.intercalate [comma])) = rows.flatMap fun row =>
      csvRecord row ++ [newline] := by
    rw [unlines, List.flatMap_map]
    apply List.flatMap_congr
    intro row hrow
    rw [csvRecord_plain (fun field hfield => (hplain row hrow field hfield).quotes) (hne row hrow)]
  rw [hlines]
  exact csvRows_records (.inl rfl) fun row hrow field hfield =>
    (hplain row hrow field hfield).toReadable

/-- The table under a line of names. -/
theorem csvTable_lines {fieldnames : List Bytes}
    (hplain : ∀ row ∈ fieldnames :: rows, ∀ field ∈ row, Plain field)
    (hne : ∀ row ∈ fieldnames :: rows, row ≠ [] ∧ row ≠ [[]]) :
    csvTable (unlines newline ((fieldnames :: rows).map (List.intercalate [comma]))) =
      some { fieldnames, rows } := by
  rw [csvTable, csvRows_lines hplain fun row hrow => (hne row hrow).2]
  simpa using fun row hrow => (hne row (List.mem_cons_of_mem fieldnames hrow)).1

/-! ### Columns -/

variable {table : CsvTable} {row : List Bytes} {name : Bytes}

/-- The value under a name that stands once in the first record. -/
theorem CsvTable.lookup_record (hnodup : table.fieldnames.Nodup) {i : ℕ}
    (hname : table.fieldnames[i]? = some name) :
    (table.record row).lookup name = some row[i]? := by
  have hkeys : (table.fieldnames.zipIdx.map Prod.fst).Nodup := by rwa [List.zipIdx_map_fst]
  have hcolumn : (name, i) ∈ table.fieldnames.zipIdx := List.mem_zipIdx_iff_getElem?.2 hname
  exact UnorderedMap.lookup_assignAll_of_mem (fun column => row[column.2]?) ∅ hkeys hcolumn

end DataAgentSystem.Text
