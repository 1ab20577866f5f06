import BlockCompiler.Proofs.CommandLine.Place
import BlockCompiler.Proofs.Document.Text

set_option autoImplicit false

/-! # What a run leaves behind

A run on a desk either refuses its input, and then no file is changed and nothing is printed, or it
compiles the document in it just as `compileSource` does and delivers what comes out. The report is
written first and the program second; if both are written at the same place, the program stays. A
strict run fails after that. -/

namespace BlockCompiler.CommandLine

/-- Every text can be written for the path. -/
def FileTree.Writable (t : FileTree) (path : String) : Prop :=
  ∀ text, ∃ files, t.writeText path text = .ok files

theorem FileTree.writable_iff {t : FileTree} {path : String} :
    t.Writable path ↔ ∃ place, t.target path = .ok place := by
  unfold Writable
  constructor
  · intro h
    obtain ⟨files, hfiles⟩ := h ""
    rw [writeText_eq] at hfiles
    cases htarget : t.target path with
    | error cause => rw [htarget] at hfiles; cases hfiles
    | ok place => exact ⟨place, rfl⟩
  · rintro ⟨place, hplace⟩ text
    exact ⟨t.put place text, by rw [writeText_eq, hplace]; rfl⟩

namespace Desk

variable {α β : Type} {d d' : Desk}

/-- A step of a run, carried out on a desk. -/
def perform (x : ExceptT Failure (StateM Desk) α) (d : Desk) : Except Failure α × Desk :=
  x.run.run d

theorem perform_bind_ok {x : ExceptT Failure (StateM Desk) α} {a : α}
    (h : perform x d = (.ok a, d')) (f : α → ExceptT Failure (StateM Desk) β) :
    perform (x >>= f) d = perform (f a) d' := by
  show (ExceptT.bindCont f (perform x d).1).run (perform x d).2 = _
  rw [h]
  rfl

theorem perform_bind_error {x : ExceptT Failure (StateM Desk) α} {failure : Failure}
    (h : perform x d = (.error failure, d')) (f : α → ExceptT Failure (StateM Desk) β) :
    perform (x >>= f) d = (.error failure, d') := by
  show (ExceptT.bindCont f (perform x d).1).run (perform x d).2 = _
  rw [h]
  rfl

/-- The desk with a line noted. -/
def noted (d : Desk) (line : String) : Desk := { d with notes := d.notes ++ line }

theorem perform_begin (a : Arguments) (label : String) (step : Nat) (d : Desk) :
    perform (begin host a label step) d = (.ok (), d.noted (progressLine label step a.steps)) := rfl

/-! ## The input -/

theorem perform_locateInput (a : Arguments) (d : Desk) : perform (locateInput host a) d =
    match d.files.locate a.input with
    | some path => (.ok path, d)
    | none => (.error (.inputNotFound a.input), d) := by
  have hhost : perform (ExceptT.lift (host.locate a.input)) d = (.ok (d.files.locate a.input), d) :=
    rfl
  refine (perform_bind_ok hhost _).trans ?_
  cases d.files.locate a.input <;> rfl

theorem perform_readDocument (parse : Markup.Parser) (path : String) (d : Desk) :
    perform (readDocument parse host path) d =
    match d.files.readText path with
    | .error cause => (.error (.unreadable path cause), d)
    | .ok source =>
      match Document.load parse source with
      | .ok document => (.ok document, d)
      | .error cause => (.error (.invalidDocument path cause), d) := by
  have hhost : perform (ExceptT.lift (host.readText path)) d = (.ok (d.files.readText path), d) :=
    rfl
  refine (perform_bind_ok hhost _).trans ?_
  cases d.files.readText path with
  | error cause => rfl
  | ok source =>
    dsimp only
    cases Document.load parse source <;> rfl

/-! ## The outputs -/

theorem host_writeText (path text : String) (d : Desk) : (host.writeText path text).run d =
    match d.files.target path with
    | .ok place => (.ok (), { d with files := d.files.put place text })
    | .error cause => (.error cause, d) := by
  have hwrite := d.files.writeText_eq path text
  cases h : d.files.target path with
  | ok place =>
    rw [h] at hwrite
    simp only [host, StateT.run_bind, StateT.run_get, pure_bind, hwrite]
    rfl
  | error cause =>
    rw [h] at hwrite
    simp only [host, StateT.run_bind, StateT.run_get, pure_bind, hwrite]
    rfl

theorem perform_writeFile (path text : String) (d : Desk) : perform (writeFile host path text) d =
    match d.files.target path with
    | .ok place => (.ok (), { d with files := d.files.put place text })
    | .error cause => (.error (.unwritable path cause), d) := by
  have hlift : perform (ExceptT.lift (host.writeText path text)) d =
      (.ok ((host.writeText path text).run d).1, ((host.writeText path text).run d).2) := rfl
  rw [host_writeText] at hlift
  refine (perform_bind_ok hlift _).trans ?_
  cases d.files.target path <;> rfl

/-- A desk after a text was written for a path, if there is a path. -/
structure Stored (d d' : Desk) (path? : Option String) (text : String) : Prop where
  entry : ∀ place, d'.files.entry? place =
    if path?.map d.files.target = some (.ok place) then some (.text text) else d.files.entry? place
  target : ∀ path place, d'.files.target path = .ok place ↔ d.files.target path = .ok place

/-- A step writes a text for a path, if there is a path, and prints a text. It fails, and does
neither, if no text can be written for the path. -/
def Delivers (x : ExceptT Failure (StateM Desk) Unit) (d : Desk) (path? : Option String)
    (text printed : String) : Prop :=
  (∃ d', perform x d = (.ok (), d') ∧ (∀ path ∈ path?, d.files.Writable path) ∧
    Stored d d' path? text ∧ d'.printed = d.printed ++ printed) ∨
  ∃ failure d', perform x d = (.error failure, d') ∧ (∃ path ∈ path?, ¬d.files.Writable path) ∧
    d'.files = d.files ∧ d'.printed = d.printed

theorem Stored.nothing (h : d'.files = d.files) (text : String) : Stored d d' none text where
  entry place := by
    rw [h]
    rfl
  target path place := by rw [h]

theorem delivers_writeFile (path text : String) (d : Desk) :
    Delivers (writeFile host path text) d (some path) text "" := by
  have hperform := perform_writeFile path text d
  cases h : d.files.target path with
  | ok place =>
    rw [h] at hperform
    have hwritten := FileTree.written_of_target h text
    refine .inl ⟨_, hperform, ?_, ⟨?_, fun _ _ => hwritten.target_iff⟩, String.append_empty.symm⟩
    · rintro _ ⟨⟩
      exact FileTree.writable_iff.2 ⟨place, h⟩
    · intro other
      rw [Option.map_some, h, hwritten.entry]
      simp only [Option.some_inj, Except.ok.injEq, eq_comm]
  | error cause =>
    rw [h] at hperform
    refine .inr ⟨_, d, hperform, ⟨path, rfl, ?_⟩, rfl, rfl⟩
    intro hwritable
    obtain ⟨place, hplace⟩ := FileTree.writable_iff.1 hwritable
    rw [h] at hplace
    cases hplace

/-- What is noted first has no part in what is delivered. -/
theorem Delivers.begin {x : Unit → ExceptT Failure (StateM Desk) Unit} {path? : Option String}
    {text printed : String} {a : Arguments} {label : String} {step : Nat}
    (h : Delivers (x ()) (d.noted (progressLine label step a.steps)) path? text printed) :
    Delivers (begin host a label step >>= x) d path? text printed := by
  have hbegin := perform_bind_ok (perform_begin a label step d) x
  rcases h with ⟨d', hperform, hwritable, hstored, hprinted⟩ | ⟨failure, d', hperform, hrest⟩
  · exact .inl ⟨d', hbegin.trans hperform, hwritable, ⟨hstored.entry, hstored.target⟩, hprinted⟩
  · exact .inr ⟨failure, d', hbegin.trans hperform, hrest⟩

theorem delivers_report (a : Arguments) (program : Program) (d : Desk) :
    Delivers (deliverReport host a program) d a.report? (Report.text program.diagnostics) "" := by
  unfold deliverReport
  cases a.report? with
  | none => exact .inl ⟨d, rfl, nofun, .nothing rfl _, String.append_empty.symm⟩
  | some path => exact .begin (delivers_writeFile path _ _)

theorem delivers_program (a : Arguments) (program : Program) (d : Desk) :
    Delivers (deliverProgram host a program) d a.output? program.source
      (if a.output?.isNone then program.source else "") := by
  unfold deliverProgram
  cases a.output? with
  | none =>
    refine .begin ?_
    generalize d.noted _ = d
    have hprint : perform (ExceptT.lift (host.print program.source)) d =
      (.ok (), { d with printed := d.printed ++ program.source }) := rfl
    have hfiles : ({ d with printed := d.printed ++ program.source } : Desk).files = d.files := rfl
    exact .inl ⟨_, hprint, nofun, .nothing hfiles _, rfl⟩
  | some path => exact .begin (delivers_writeFile path _ _)

theorem Stored.writable_iff {path? : Option String} {text : String} (h : Stored d d' path? text)
    (path : String) : d'.files.Writable path ↔ d.files.Writable path := by
  rw [FileTree.writable_iff, FileTree.writable_iff]
  exact exists_congr fun place => h.target path place

theorem Stored.readText {path text : String} (h : Stored d d' (some path) text)
    (hwritable : d.files.Writable path) : d'.files.readText path = .ok text := by
  obtain ⟨place, hplace⟩ := FileTree.writable_iff.1 hwritable
  refine FileTree.readText_of_target ((h.target path place).2 hplace) ?_
  rw [h.entry, Option.map_some, hplace, if_pos rfl]

/-- Nothing else is written. -/
theorem Stored.entry?_eq {path? : Option String} {text : String} (h : Stored d d' path? text)
    {place : List String} (hplace : ∀ path ∈ path?, d.files.target path ≠ .ok place) :
    d'.files.entry? place = d.files.entry? place := by
  rw [h.entry, if_neg]
  intro heq
  obtain ⟨path, hpath, htarget⟩ := Option.map_eq_some_iff.1 heq
  exact hplace path hpath htarget

/-- A text is not lost when another one is written elsewhere. -/
theorem Stored.readText_before {d'' : Desk} {path text text' : String} {path? : Option String}
    (h : Stored d d' (some path) text) (h' : Stored d' d'' path? text')
    (hwritable : d.files.Writable path)
    (hother : ∀ other ∈ path?, d.files.target other ≠ d.files.target path) :
    d''.files.readText path = .ok text := by
  obtain ⟨place, hplace⟩ := FileTree.writable_iff.1 hwritable
  have htarget := (h.target path place).2 hplace
  refine FileTree.readText_of_target ((h'.target path place).2 htarget) ?_
  rw [h'.entry?_eq, h.entry, Option.map_some, hplace, if_pos rfl]
  intro other hmem heq
  exact hother other hmem (((h.target other place).1 heq).trans hplace.symm)

/-- What is left when the outputs of a program are delivered. -/
structure Delivered (a : Arguments) (program : Program) (files : FileTree) (shown : String)
    (result : Except Failure Unit × Desk) : Prop where
  /-- A run fails if a text cannot be written, or if it is strict and there are diagnostics. -/
  failed_iff : (∃ failure, result.1 = .error failure) ↔
    (∃ path, (path ∈ a.report? ∨ path ∈ a.output?) ∧ ¬files.Writable path) ∨
      (a.strict = true ∧ program.diagnostics ≠ [])
  /-- The program is written, whether the run is strict or not. -/
  output : (∀ path ∈ a.report?, files.Writable path) → ∀ path ∈ a.output?, files.Writable path →
    result.2.files.readText path = .ok program.source
  /-- Without a place to write it, the program is printed. -/
  printed : (∀ path ∈ a.report?, files.Writable path) → a.output? = none →
    result.2.printed = shown ++ program.source
  unprinted : (∃ path ∈ a.report?, ¬files.Writable path) ∨ a.output? ≠ none →
    result.2.printed = shown
  /-- The report is written, unless the program takes its place. -/
  report : ∀ path ∈ a.report?, files.Writable path →
    (∀ other ∈ a.output?, files.target other ≠ files.target path) →
    result.2.files.readText path = .ok (Report.text program.diagnostics)
  /-- Nothing else is written. -/
  others : ∀ place, (∀ path, path ∈ a.report? ∨ path ∈ a.output? → files.target path ≠ .ok place) →
    FileTree.entry? result.2.files place = files.entry? place

section Delivered

variable {a : Arguments} {program : Program} {result : Except Failure Unit × Desk}
  {failure : Failure} {path : String}

/-- The report cannot be written. -/
theorem Delivered.of_report (hpath : path ∈ a.report?) (hunwritable : ¬d.files.Writable path)
    (hresult : result.1 = .error failure) (hfiles : result.2.files = d.files)
    (hprinted : result.2.printed = d.printed) :
    Delivered a program d.files d.printed result where
  failed_iff := ⟨fun _ => .inl ⟨path, .inl hpath, hunwritable⟩, fun _ => ⟨failure, hresult⟩⟩
  output h := absurd (h path hpath) hunwritable
  printed h := absurd (h path hpath) hunwritable
  unprinted _ := hprinted
  report other hother h := absurd (Option.mem_unique hother hpath ▸ h) hunwritable
  others place _ := by rw [hfiles]

/-- The report is written, and the program cannot be. -/
theorem Delivered.of_output (hstored : Stored d d' a.report? (Report.text program.diagnostics))
    (hpath : path ∈ a.output?) (hunwritable : ¬d.files.Writable path)
    (hresult : result.1 = .error failure) (hfiles : result.2.files = d'.files)
    (hprinted : result.2.printed = d.printed) :
    Delivered a program d.files d.printed result where
  failed_iff := ⟨fun _ => .inl ⟨path, .inr hpath, hunwritable⟩, fun _ => ⟨failure, hresult⟩⟩
  output _ other hother h := absurd (Option.mem_unique hother hpath ▸ h) hunwritable
  printed _ hnone := by
    rw [hnone] at hpath
    cases hpath
  unprinted _ := hprinted
  report other hother h _ := by
    rw [Option.mem_def.1 hother] at hstored
    exact hstored.readText_before (.nothing hfiles "") h nofun
  others place hplace := by
    rw [hfiles, hstored.entry?_eq fun path hpath => hplace path (.inl hpath)]

/-- Both are written, so only diagnostics can make the run fail. -/
theorem Delivered.of_both (hwritable : ∀ path, path ∈ a.report? ∨ path ∈ a.output? →
      d.files.Writable path)
    (hstored : Stored d d' a.report? (Report.text program.diagnostics))
    (hstored' : Stored d' result.2 a.output? program.source)
    (hresult : (∃ failure, result.1 = .error failure) ↔
      a.strict = true ∧ program.diagnostics ≠ [])
    (hprinted : result.2.printed =
      d.printed ++ if a.output?.isNone then program.source else "") :
    Delivered a program d.files d.printed result where
  failed_iff := by
    have hnone : ¬∃ path, (path ∈ a.report? ∨ path ∈ a.output?) ∧ ¬d.files.Writable path :=
      fun ⟨path, hpath, h⟩ => h (hwritable path hpath)
    rw [or_iff_right hnone, hresult]
  output _ path hpath h := by
    rw [Option.mem_def.1 hpath] at hstored'
    exact hstored'.readText ((hstored.writable_iff path).2 h)
  printed _ hnone := by
    rw [hprinted, hnone]
    rfl
  unprinted h := by
    rcases h with ⟨path, hpath, h⟩ | hsome
    · exact absurd (hwritable path (.inl hpath)) h
    · rw [hprinted, Option.isNone_eq_false_iff.2 (Option.isSome_iff_ne_none.2 hsome)]
      exact String.append_empty
  report path hpath h hother := by
    rw [Option.mem_def.1 hpath] at hstored
    exact hstored.readText_before hstored' h hother
  others place hplace := by
    rw [hstored'.entry?_eq, hstored.entry?_eq fun path hpath => hplace path (.inl hpath)]
    exact fun path hpath => mt (hstored.target path place).1 (hplace path (.inr hpath))

end Delivered

/-- The last steps of a run. -/
def deliver (a : Arguments) (program : Program) : ExceptT Failure (StateM Desk) Unit := do
  deliverReport host a program
  deliverProgram host a program
  if a.strict && !program.diagnostics.isEmpty then
    throw (.reported program.diagnostics.length)

theorem deliver_delivered (a : Arguments) (program : Program) (d : Desk) :
    Delivered a program d.files d.printed (perform (deliver a program) d) := by
  unfold deliver
  rcases delivers_report a program d with
    ⟨d₁, hreport, hreportWritable, hstored, hprinted⟩ |
    ⟨failure, d₁, hreport, ⟨path, hpath, hunwritable⟩, hfiles, hprinted⟩
  · rw [perform_bind_ok hreport]
    rw [String.append_empty] at hprinted
    rcases delivers_program a program d₁ with
      ⟨d₂, hprogram, hprogramWritable, hstored', hprinted'⟩ |
      ⟨failure, d₂, hprogram, ⟨path, hpath, hunwritable⟩, hfiles, hprinted'⟩
    · have hwritable : ∀ path, path ∈ a.report? ∨ path ∈ a.output? → d.files.Writable path := by
        rintro path (hpath | hpath)
        · exact hreportWritable path hpath
        · exact (hstored.writable_iff path).1 (hprogramWritable path hpath)
      have hstrict : perform (if a.strict && !program.diagnostics.isEmpty then
          throw (.reported program.diagnostics.length) else pure ()) d₂ =
          (if a.strict && !program.diagnostics.isEmpty then
            .error (.reported program.diagnostics.length) else .ok (), d₂) := by
        split <;> rfl
      rw [perform_bind_ok hprogram]
      refine hstrict ▸ .of_both hwritable hstored hstored' ?_ (hprinted ▸ hprinted')
      dsimp only
      split
      · next h => exact ⟨fun _ => by simpa using h, fun _ => ⟨_, rfl⟩⟩
      · next h => exact ⟨nofun, fun h' => absurd (by simpa using h') h⟩
    · rw [perform_bind_error hprogram]
      exact .of_output hstored hpath (mt (hstored.writable_iff path).2 hunwritable) rfl hfiles
        (hprinted'.trans hprinted)
  · rw [perform_bind_error hreport]
    exact .of_report hpath hunwritable rfl hfiles hprinted

/-! ## The run -/

/-- A run fails, and nothing is written or printed. -/
structure Refused (parse : Markup.Parser) (a : Arguments) (d : Desk) (failure : Failure) : Prop where
  result : (d.runWith parse a).1 = .error failure
  files : (d.runWith parse a).2.files = d.files
  printed : (d.runWith parse a).2.printed = d.printed

variable {parse : Markup.Parser}

/-- The steps of a run that come after the document has been located. -/
def proceed (parse : Markup.Parser) (a : Arguments) (path : String) :
    ExceptT Failure (StateM Desk) Unit := do
  let document ← readDocument parse host path
  begin host a "Generating C source" 3
  deliver a (document.project a.board?).compile

theorem refused_of_locate {a : Arguments} (h : d.files.locate a.input = none) :
    Refused parse a d (.inputNotFound a.input) := by
  have hlocate := perform_locateInput a (d.noted (progressLine "Resolving input path" 1 a.steps))
  rw [show (d.noted _).files = d.files from rfl, h] at hlocate
  have hrun : d.runWith parse a = (.error (.inputNotFound a.input), _) :=
    (perform_bind_ok (perform_begin ..) _).trans (perform_bind_error hlocate _)
  exact ⟨congrArg Prod.fst hrun, congrArg (·.2.files) hrun, congrArg (·.2.printed) hrun⟩

/-- A file that is found is read under its full name, and no file is changed before that. -/
theorem run_of_find {a : Arguments} {place : List String} {entry : Entry}
    (h : d.files.find a.input = .ok (place, entry)) (hfile : entry ≠ .directory) :
    ∃ d' : Desk, d'.files = d.files ∧ d'.printed = d.printed ∧
      d.runWith parse a = perform (proceed parse a (FileTree.fullName place)) d' := by
  have hfull : d.files.locate a.input = some (FileTree.fullName place) := by
    rw [FileTree.locate, h]
    cases entry with
    | text source => rfl
    | binary => rfl
    | directory => exact absurd rfl hfile
  have hlocate := perform_locateInput a (d.noted (progressLine "Resolving input path" 1 a.steps))
  rw [show (d.noted _).files = d.files from rfl, hfull] at hlocate
  have hrun : d.runWith parse a = perform (proceed parse a (FileTree.fullName place)) _ :=
    (perform_bind_ok (perform_begin ..) _).trans
      ((perform_bind_ok hlocate _).trans (perform_bind_ok (perform_begin ..) _))
  exact ⟨(d.noted _).noted _, rfl, rfl, hrun⟩

/-- A text that is found under some path is read under its full name. -/
theorem perform_readDocument_of_text {path source : String} {place : List String}
    (h : d.files.find path = .ok (place, .text source)) :
    perform (readDocument parse host (FileTree.fullName place)) d =
      match Document.load parse source with
      | .ok document => (.ok document, d)
      | .error cause => (.error (.invalidDocument (FileTree.fullName place) cause), d) := by
  rw [perform_readDocument, FileTree.readText, FileTree.find_fullName h]
  rfl

theorem perform_readDocument_of_binary {path : String} {place : List String}
    (h : d.files.find path = .ok (place, .binary)) :
    perform (readDocument parse host (FileTree.fullName place)) d =
      (.error (.unreadable (FileTree.fullName place) .notText), d) := by
  rw [perform_readDocument, FileTree.readText, FileTree.find_fullName h]
  rfl

theorem refused_of_readDocument {a : Arguments} {place : List String} {entry : Entry}
    {failure : Failure} (h : d.files.find a.input = .ok (place, entry)) (hfile : entry ≠ .directory)
    (hread : ∀ d' : Desk, d'.files.find a.input = .ok (place, entry) →
      perform (readDocument parse host (FileTree.fullName place)) d' = (.error failure, d')) :
    Refused parse a d failure := by
  obtain ⟨d', hfiles, hprinted, hrun⟩ := run_of_find h hfile
  have hfailed : d.runWith parse a = (.error failure, d') :=
    hrun.trans (perform_bind_error (hread d' (hfiles ▸ h)) _)
  exact ⟨congrArg Prod.fst hfailed, (congrArg (·.2.files) hfailed).trans hfiles,
    (congrArg (·.2.printed) hfailed).trans hprinted⟩

/-- A document with a block of no known type. -/
def wobble : Document where
  workspace :=
    { blocks := #[{ id := "wobble#0", type := "wobble" }]
      top := [0]
      index := [0] }
  board? := none

/-- A desk with the text of that document on it. -/
def wobbling : Desk :=
  { files := ⟨[(["bad.xml"], .text "<xml><block type='wobble'/></xml>")]⟩ }

/-- A strict run with a report. -/
def strictly : Arguments :=
  { input := "./bad.xml", output? := some "bad.c", report? := some "bad.json", strict := true }

end Desk

end BlockCompiler.CommandLine
