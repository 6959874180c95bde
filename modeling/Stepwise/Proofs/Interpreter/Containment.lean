import Stepwise.CommandLine.Program
import Stepwise.Proofs.Language.LargeInteger

namespace Stepwise

/-- A path with a null character in it. -/
def Files.Path.HasNull (path : Files.Path) : Prop := '\x00' ∈ path.text.toList

theorem Files.Store.hasNull_of_locate {store : Files.Store} {path : Files.Path}
    (h : store.locate path = .error .nullCharacter) : path.HasNull := by
  unfold Files.Store.locate at h
  split at h
  · rename_i hnull
    exact List.contains_iff_mem.mp hnull
  · split at h
    · cases h
    · obtain ⟨fault, -, hfault⟩ := error_of_mapError h
      cases hfault

theorem Files.Store.hasNull_of_writeText {store : Files.Store} {path : Files.Path} {text : String}
    (h : store.writeText path text = .error .nullCharacter) : path.HasNull := by
  rcases error_of_bind h with hlocate | ⟨place, -, hplace⟩
  · exact hasNull_of_locate hlocate
  · split at hplace <;> cases hplace

theorem ReadError.report_eq_error {error : ReadError} {fatal : Fatal}
    (h : error.report = .error fatal) : error = .integerTooLarge ∧ fatal = .integerTooLarge := by
  cases error with
  | integerTooLarge =>
    cases h
    exact ⟨rfl, rfl⟩
  | malformed e => cases h
  | unbound e => cases h

theorem ReadError.report_eq_ok {error : ReadError} {report : String}
    (h : error.report = .ok report) : report = error.message := by
  cases error with
  | integerTooLarge => cases h
  | malformed e =>
    cases h
    rfl
  | unbound e =>
    cases h
    rfl

theorem LoadError.report_eq_error {error : LoadError} {fatal : Fatal}
    (h : error.report = .error fatal) :
    error = .content (.unreadable .integerTooLarge) ∧ fatal = .integerTooLarge := by
  cases error with
  | file e => cases e <;> cases h
  | content e =>
    cases e with
    | unreadable e =>
      obtain ⟨rfl, rfl⟩ := ReadError.report_eq_error h
      exact ⟨rfl, rfl⟩
    | _ => cases h

theorem ExecutionError.report_eq_error {error : ExecutionError} {fatal : Fatal}
    (h : error.report = .error fatal) : error = .file .nullCharacter ∧ fatal = .nullCharacter := by
  cases error with
  | step e => cases h
  | file e =>
    cases e with
    | refused fault path => cases h
    | nullCharacter =>
      cases h
      exact ⟨rfl, rfl⟩

/-- A row of digits is a line of statements. -/
theorem Line.ofText_digits {ds : List Char} (nonempty : ds ≠ [])
    (digits : ∀ c ∈ ds, Text.isDigit c = true) :
    Line.ofText (String.ofList ds) = .program (String.ofList ds) := by
  rw [Line.ofText, Text.trim_of_not_blank fun c hc => Text.isBlank_of_isDigit (digits c hc)]
  unfold Line.ofTrimmed
  rw [String.toList_ofList]
  split
  · exact absurd rfl nonempty
  · exact absurd (digits '#' List.mem_cons_self) (by decide)
  · exact absurd (digits ':' List.mem_cons_self) (by decide)
  · rfl

namespace Interpreter

variable {s s' : Interpreter}

theorem hasNull_of_writeDerivation {d : Derivation} {path : Option String}
    (h : s.writeDerivation d path = .error .nullCharacter) :
    ∃ p, path = some p ∧ (s.outputPath p).HasNull := by
  cases path with
  | none => cases h
  | some p =>
    simp only [writeDerivation] at h
    split at h
    · cases h
    · rcases error_of_bind h with hsave | ⟨store, -, hstore⟩
      · exact ⟨p, rfl, Files.Store.hasNull_of_writeText hsave⟩
      · cases hstore

/-- Writing a derivation changes nothing but the files. -/
theorem store_of_writeDerivation {d : Derivation}
    {path : Option String} {said : String} (h : s.writeDerivation d path = .ok (s', said)) :
    ∃ store, s' = { s with store } := by
  cases path with
  | none =>
    cases h
    exact ⟨s.store, rfl⟩
  | some p =>
    simp only [writeDerivation] at h
    split at h
    · cases h
      exact ⟨s.store, rfl⟩
    · obtain ⟨store, -, hk⟩ := ok_of_bind h
      cases hk
      exact ⟨store, rfl⟩

/-- Only the end of a session fails without a report, and it then writes to such a path. -/
theorem hasNull_of_execute {statement : Statement}
    (h : s.execute statement = .error (.file .nullCharacter)) :
    ∃ p, statement = .finish (some p) ∧ (s.outputPath p).HasNull := by
  cases statement with
  | define | start | quit => cases h
  | inline | apply | undo =>
    rcases error_of_mapError_bind h with ⟨e, -, he⟩ | ⟨_, -, hrest⟩
    · cases he
    · cases hrest
  | finish path =>
    simp only [execute, finish] at h
    split at h
    · cases h
    · rcases error_of_mapError_bind h with ⟨e, hwrite, he⟩ | ⟨_, -, hrest⟩
      · cases he
        obtain ⟨p, rfl, hnull⟩ := hasNull_of_writeDerivation hwrite
        exact ⟨p, rfl, hnull⟩
      · cases hrest

/-- No statement changes where derivations are written to, and only `quit` stops an interpreter. -/
theorem kept_of_execute {statement : Statement} {said : Option String}
    (h : s.execute statement = .ok (s', said)) :
    s'.outputDirectory = s.outputDirectory ∧ (statement ≠ .quit → s'.running = s.running) := by
  cases statement with
  | define =>
    cases h
    exact ⟨rfl, fun _ => rfl⟩
  | quit =>
    cases h
    exact ⟨rfl, fun hquit => absurd rfl hquit⟩
  | start t =>
    simp only [execute, startSession] at h
    split at h <;> cases h <;> exact ⟨rfl, fun _ => rfl⟩
  | inline | apply | undo =>
    obtain ⟨_, -, hrest⟩ := ok_of_bind_mapError h
    cases hrest
    exact ⟨rfl, fun _ => rfl⟩
  | finish path =>
    simp only [execute, finish] at h
    split at h
    · cases h
      exact ⟨rfl, fun _ => rfl⟩
    · obtain ⟨⟨after, said⟩, hwrite, hrest⟩ := ok_of_bind_mapError h
      cases hrest
      obtain ⟨store, rfl⟩ := store_of_writeDerivation hwrite
      exact ⟨rfl, fun _ => rfl⟩

theorem hasNull_of_executeAll {statements : List Statement} {error : ExecutionError}
    {fatal : Fatal} (h : (s.executeAll statements).ending = .failed error)
    (hreport : error.report = .error fatal) :
    fatal = .nullCharacter ∧
      ∃ p, Statement.finish (some p) ∈ statements ∧ (s.outputPath p).HasNull := by
  obtain ⟨rfl, rfl⟩ := ExecutionError.report_eq_error hreport
  refine ⟨rfl, ?_⟩
  induction statements generalizing s with
  | nil => cases h
  | cons statement statements ih =>
    unfold executeAll at h
    split at h
    · rename_i error herror
      cases h
      obtain ⟨p, rfl, hnull⟩ := hasNull_of_execute herror
      exact ⟨p, List.mem_cons_self, hnull⟩
    · rename_i t said hnext
      split at h
      · obtain ⟨p, hmem, hnull⟩ := ih h
        refine ⟨p, List.mem_cons_of_mem statement hmem, ?_⟩
        rwa [outputPath, (kept_of_execute hnext).1] at hnull
      · cases h

/-- What lets an error out of a program text. -/
inductive ProgramCause (s : Interpreter) (text : String) : Fatal → Prop
  | integer (large : HasLargeInteger text) : ProgramCause s text .integerTooLarge
  | path {statements : List Statement} {p : String} (program : readProgram text = .ok statements)
      (mem : .finish (some p) ∈ statements) (null : (s.outputPath p).HasNull) :
      ProgramCause s text .nullCharacter

/-- What lets an error out of a command: a rule file with an integer that is too large. -/
inductive CommandCause (s : Interpreter) : Command → Fatal → Prop
  | load {file text side : String}
      (content : s.store.readText (Files.Path.ofString file) = .ok text)
      (source : RuleSource (Files.Path.ofString file) text side) (large : HasLargeInteger side) :
      CommandCause s (.load file) .integerTooLarge

theorem programCause_of_unreadable {text : String} {error : ReadError} {fatal : Fatal}
    (h : readProgram text = .error error) (hreport : error.report = .error fatal) :
    s.ProgramCause text fatal := by
  obtain ⟨rfl, rfl⟩ := ReadError.report_eq_error hreport
  exact .integer (readProgram_overflow h)

theorem programCause_of_failed {text : String} {statements : List Statement}
    {error : ExecutionError} {fatal : Fatal} (h : readProgram text = .ok statements)
    (hfailed : (s.executeAll statements).ending = .failed error)
    (hreport : error.report = .error fatal) : s.ProgramCause text fatal := by
  obtain ⟨rfl, p, hmem, hnull⟩ := hasNull_of_executeAll hfailed hreport
  exact .path h hmem hnull

theorem answerOf_eq_error {messages : List Message} {ending : Ending} {fatal : Fatal}
    (h : answerOf messages ending = .error fatal) :
    ∃ error, ending = .failed error ∧ error.report = .error fatal := by
  cases ending with
  | failed error =>
    rcases error_of_bind h with hreport | ⟨_, -, hrest⟩
    · exact ⟨error, rfl, hreport⟩
    · cases hrest
  | finished => cases h
  | stopped => cases h

theorem programCause_of_processProgram {text : String} {fatal : Fatal}
    (h : (s.processProgram text).answer = .error fatal) : s.ProgramCause text fatal := by
  unfold processProgram at h
  split at h
  · rename_i error hread
    have hreport : error.report = .error fatal := error_of_map h
    exact programCause_of_unreadable hread hreport
  · rename_i statements hread
    obtain ⟨error, hfailed, hreport⟩ := answerOf_eq_error h
    exact programCause_of_failed hread hfailed hreport

theorem ruleSource_of_load {path : Files.Path}
    (h : s.load path = .error (.content (.unreadable .integerTooLarge))) :
    ∃ text side, s.store.readText path = .ok text ∧ RuleSource path text side ∧
      HasLargeInteger side := by
  rcases error_of_bind h with hrules | ⟨_, -, hrest⟩
  · rcases error_of_mapError_bind hrules with ⟨e, -, he⟩ | ⟨text, hcontent, hread⟩
    · cases he
    · obtain ⟨e, hread, he⟩ := error_of_mapError hread
      cases he
      obtain ⟨side, hsource, hlarge⟩ := readRules_overflow hread
      exact ⟨text, side, hcontent, hsource, hlarge⟩
  · cases hrest

theorem commandCause_of_loadFile {file : String} {fatal : Fatal}
    (h : s.loadFile file = .error fatal) : s.CommandCause (.load file) fatal := by
  unfold loadFile at h
  cases hload : s.load (Files.Path.ofString file) with
  | ok loaded =>
    simp only [hload] at h
    cases h
  | error error =>
    simp only [hload] at h
    rcases error_of_bind h with hreport | ⟨_, -, hrest⟩
    · obtain ⟨rfl, rfl⟩ := LoadError.report_eq_error hreport
      obtain ⟨text, side, hcontent, hsource, hlarge⟩ := ruleSource_of_load hload
      exact .load hcontent hsource hlarge
    · cases hrest

theorem commandCause_of_command {c : Command} {fatal : Fatal} (h : s.command c = .error fatal) :
    s.CommandCause c fatal := by
  cases c with
  | load file =>
    simp only [command] at h
    split at h
    · cases h
    · exact commandCause_of_loadFile h
  | display name =>
    simp only [command, chooseDisplay] at h
    split at h
    · cases h
    · split at h <;> cases h
  | _ => cases h

/-- What lets an error out of a line. -/
inductive LineCause (s : Interpreter) (line : String) : Fatal → Prop
  | program {text : String} {fatal : Fatal} (kind : Line.ofText line = .program text)
      (cause : s.ProgramCause text fatal) : LineCause s line fatal
  | command {c : Command} {fatal : Fatal} (kind : Line.ofText line = .command c)
      (cause : s.CommandCause c fatal) : LineCause s line fatal

theorem lineCause_of_processLine {line : String} {fatal : Fatal}
    (h : (s.processLine line).answer = .error fatal) : s.LineCause line fatal := by
  unfold processLine at h
  split at h
  · cases h
  · rename_i c kind
    cases hc : s.command c with
    | ok said =>
      rw [hc] at h
      cases h
    | error e =>
      rw [hc] at h
      cases h
      exact .command kind (commandCause_of_command hc)
  · rename_i text kind
    exact .program kind (programCause_of_processProgram h)

theorem failureOf_eq_fatal {number : Nat} {report : Except Fatal String} {fatal : Fatal}
    (h : failureOf number report = .fatal fatal) : report = .error fatal := by
  cases report with
  | ok message => cases h
  | error e =>
    cases h
    rfl

/-- How the statements of an input can end a script. -/
inductive ProgramEnds (s : Interpreter) (number : Nat) (text : String) (outcome : ScriptOutcome) :
    Prop
  | unread {error : ReadError} (read : readProgram text = .error error)
      (outcome : outcome = failureOf number error.report)
  | unexecuted {statements : List Statement} {error : ExecutionError}
      (read : readProgram text = .ok statements)
      (ending : (s.executeAll statements).ending = .failed error)
      (outcome : outcome = failureOf number error.report)
  | stopped (outcome : outcome = .finished)

/-- How a command can end a script. -/
inductive CommandEnds (s : Interpreter) (number : Nat) (c : Command) : ScriptOutcome → Prop
  | fatal {error : Fatal} (answer : s.command c = .error error) : CommandEnds s number c (.fatal error)
  | complaint {after : Interpreter} {message : String}
      (answer : s.command c = .ok (after, some message)) (complaint : isComplaint message = true) :
      CommandEnds s number c (.failed number message)
  | stopped : CommandEnds s number c .finished

theorem programEnds {quiet : Bool} {number : Nat} {text : String} {outcome : ScriptOutcome}
    (h : (s.advanceProgram quiet number text).result = some outcome) :
    s.ProgramEnds number text outcome := by
  unfold advanceProgram at h
  cases hread : readProgram text with
  | error error =>
    simp only [hread, Option.some.injEq] at h
    exact .unread hread h.symm
  | ok statements =>
    simp only [hread] at h
    cases hending : (s.executeAll statements).ending with
    | failed error =>
      simp only [hending, Option.some.injEq] at h
      exact .unexecuted hread hending h.symm
    | stopped =>
      simp only [hending, Option.some.injEq] at h
      exact .stopped h.symm
    | finished => simp [hending] at h

theorem commandEnds {number : Nat} {c : Command} {outcome : ScriptOutcome}
    (h : (s.advanceCommand number c).result = some outcome) : s.CommandEnds number c outcome := by
  unfold advanceCommand at h
  cases hc : s.command c with
  | error fatal =>
    simp only [hc, Option.some.injEq] at h
    exact h ▸ .fatal hc
  | ok response =>
    obtain ⟨after, said⟩ := response
    simp only [hc] at h
    cases hsaid : said.filter isComplaint with
    | some message =>
      simp only [hsaid, Option.some.injEq] at h
      obtain ⟨rfl, complaint⟩ := Option.filter_eq_some_iff.mp hsaid
      exact h ▸ .complaint hc complaint
    | none =>
      simp only [hsaid] at h
      split at h
      · cases h
      · cases h
        exact .stopped

theorem programCause_of_advanceProgram {quiet : Bool} {number : Nat} {text : String} {fatal : Fatal}
    (h : (s.advanceProgram quiet number text).result = some (.fatal fatal)) :
    s.ProgramCause text fatal := by
  cases programEnds h with
  | unread read outcome => exact programCause_of_unreadable read (failureOf_eq_fatal outcome.symm)
  | unexecuted read ending outcome =>
    exact programCause_of_failed read ending (failureOf_eq_fatal outcome.symm)
  | stopped outcome => cases outcome

theorem commandCause_of_advanceCommand {number : Nat} {c : Command} {fatal : Fatal}
    (h : (s.advanceCommand number c).result = some (.fatal fatal)) : s.CommandCause c fatal := by
  cases commandEnds h with
  | fatal answer => exact commandCause_of_command answer

/-- An input with a further line, or one that begins with the line. -/
def joined (pending : Option OpenInput) (line : String) : String :=
  match pending with
  | some input => input.text ++ "\n" ++ line
  | none => line

/-- What taking in a line can come to. -/
inductive Advances (s : Interpreter) (quiet : Bool) (pending : Option OpenInput) (number : Nat)
    (line : String) : Advance × Option OpenInput → Prop
  | blank (free : pending = none) : Advances s quiet pending number line ({ state := s }, none)
  | command {c : Command} (free : pending = none) (kind : Line.ofText line = .command c) :
      Advances s quiet pending number line (s.advanceCommand number c, none)
  | opened {input : OpenInput} (text : input.text = joined pending line) :
      Advances s quiet pending number line ({ state := s }, some input)
  | complete {first : Nat} : Advances s quiet pending number line
      (s.advanceProgram quiet first (joined pending line), none)

theorem advances (s : Interpreter) (quiet : Bool) (pending : Option OpenInput) (number : Nat)
    (line : String) :
    s.Advances quiet pending number line (s.advance quiet pending number line) := by
  unfold advance
  cases pending with
  | some input =>
    dsimp only
    split
    · exact .opened rfl
    · exact .complete
  | none =>
    dsimp only
    split
    · exact .blank rfl
    · exact .command rfl ‹_›
    · split
      · exact .opened rfl
      · exact .complete

/-- What lets an error out of the lines of a script: an input on some of them, or a command, in the
state that the lines before lead to. -/
inductive RunCause (s : Interpreter) (quiet : Bool) (pending : Option OpenInput) (number : Nat)
    (lines : List String) : Fatal → Prop
  | program (before chunk : List String) {after : List String} {fatal : Fatal}
      (split : lines = before ++ (chunk ++ after))
      (cause : (s.runLines quiet pending number before).state.ProgramCause
        ("\n".intercalate chunk) fatal) : RunCause s quiet pending number lines fatal
  | command (before : List String) {after : List String} {line : String} {c : Command}
      {fatal : Fatal} (split : lines = before ++ line :: after) (kind : Line.ofText line = .command c)
      (cause : (s.runLines quiet pending number before).state.CommandCause c fatal) :
      RunCause s quiet pending number lines fatal

section Lines

variable {quiet : Bool} {pending : Option OpenInput} {number : Nat} {line : String}
  {lines : List String} {fatal : Fatal}

theorem state_runLines_cons (h : (s.advance quiet pending number line).1.result = none) :
    (s.runLines quiet pending number (line :: lines)).state =
      ((s.advance quiet pending number line).1.state.runLines quiet
        (s.advance quiet pending number line).2 (number + 1) lines).state := by
  rw [runLines]
  simp only [h]

/-- What lets an error out of the lines behind one that the script goes on after. -/
theorem RunCause.cons {advanced : Advance × Option OpenInput}
    (ha : s.advance quiet pending number line = advanced) (h : advanced.1.result = none)
    (cause : RunCause advanced.1.state quiet advanced.2 (number + 1) lines fatal) :
    RunCause s quiet pending number (line :: lines) fatal := by
  subst ha
  cases cause with
  | program before chunk split cause =>
    rw [← state_runLines_cons h] at cause
    exact .program (line :: before) chunk (congrArg (line :: ·) split) cause
  | command before split kind cause =>
    rw [← state_runLines_cons h] at cause
    exact .command (line :: before) (congrArg (line :: ·) split) kind cause

/-- An input that is not complete goes on with lines of the script. -/
inductive OpenCause (s : Interpreter) (lines : List String) :
    Option OpenInput → Fatal → Prop
  | program {input : OpenInput} (chunk : List String) {after : List String} {fatal : Fatal}
      (split : lines = chunk ++ after)
      (cause : s.ProgramCause ("\n".intercalate (input.text :: chunk)) fatal) :
      OpenCause s lines (some input) fatal

/-- The line and what follows it are an input of their own, or the end of the one that is open. -/
theorem cause_of_joined (chunk : List String) {after : List String} (split : lines = chunk ++ after)
    (cause : s.ProgramCause ("\n".intercalate (joined pending line :: chunk)) fatal) :
    OpenCause s (line :: lines) pending fatal ∨
      RunCause s quiet pending number (line :: lines) fatal := by
  subst split
  cases pending with
  | some input => exact Or.inl (.program (line :: chunk) rfl cause)
  | none => exact Or.inr (.program [] (line :: chunk) rfl cause)

/-- Induction on the lines. Where one leaves an input open, the cause is in that input as far as it
goes on, or behind it. -/
theorem cause_of_runLines (h : (s.runLines quiet pending number lines).outcome = .fatal fatal) :
    OpenCause s lines pending fatal ∨ RunCause s quiet pending number lines fatal := by
  induction lines generalizing s pending number with
  | nil => cases pending <;> cases h
  | cons line lines ih =>
    rw [runLines] at h
    have step := s.advances quiet pending number line
    generalize ha : s.advance quiet pending number line = advanced at h step
    cases step with
    | blank free =>
      rcases ih h with hopen | hrun
      · cases hopen
      · exact Or.inr (.cons ha rfl hrun)
    | @command c free kind =>
      subst free
      cases hresult : (s.advanceCommand number c).result with
      | some outcome =>
        simp only [hresult] at h
        subst h
        exact Or.inr (.command [] rfl kind (commandCause_of_advanceCommand hresult))
      | none =>
        simp only [hresult] at h
        rcases ih h with hopen | hrun
        · cases hopen
        · exact Or.inr (.cons ha hresult hrun)
    | @opened input text =>
      rcases ih h with hopen | hrun
      · cases hopen with
        | program chunk split cause => exact cause_of_joined chunk split (text ▸ cause)
      · exact Or.inr (.cons ha rfl hrun)
    | @complete first =>
      cases hresult : (s.advanceProgram quiet first (joined pending line)).result with
      | some outcome =>
        simp only [hresult] at h
        subst h
        exact cause_of_joined [] rfl (programCause_of_advanceProgram hresult)
      | none =>
        simp only [hresult] at h
        rcases ih h with hopen | hrun
        · cases hopen
        · exact Or.inr (.cons ha hresult hrun)

theorem runCause_of_runScript (h : (s.runScript quiet lines).outcome = .fatal fatal) :
    RunCause s quiet none 1 lines fatal := by
  rcases cause_of_runLines h with hopen | hrun
  · cases hopen
  · exact hrun

end Lines

theorem exit_of_runText (quiet : Bool) (source text : String) :
    (s.runText quiet source text).exit = .code 0 ∨ (s.runText quiet source text).exit = .code 1 ∨
      ∃ fatal, (s.runText quiet source text).exit = .fatal fatal ∧
        (s.runScript quiet (Text.lines text)).outcome = .fatal fatal := by
  unfold runText ScriptRun.outcomeFor
  cases (s.runScript quiet (Text.lines text)).outcome with
  | finished => exact Or.inl rfl
  | failed line message => exact Or.inr (Or.inl rfl)
  | fatal error => exact Or.inr (Or.inr ⟨error, rfl, rfl⟩)

theorem processLine_of_unreadable {line text : String} {error : ReadError}
    (kind : Line.ofText line = .program text) (h : readProgram text = .error error) :
    (s.processLine line).answer = error.report.map fun report => some ("Error: " ++ report) := by
  simp only [processLine, kind, processProgram, h]

theorem processLine_of_failed {line text : String} {statements : List Statement}
    {error : ExecutionError} (kind : Line.ofText line = .program text)
    (h : readProgram text = .ok statements)
    (failed : (s.executeAll statements).ending = .failed error) :
    (s.processLine line).answer = error.report.map fun report => some ("\n".intercalate
      ((s.executeAll statements).messages.map Message.text ++ ["Error: " ++ report])) := by
  simp only [processLine, kind, processProgram, h, failed, answerOf]
  cases error.report <;> rfl

theorem loadFile_of_error {file : String} {error : LoadError}
    (h : s.load (Files.Path.ofString file) = .error error) :
    s.loadFile file =
      error.report.map fun report => (s, some (s!"Error loading {file}: " ++ report)) := by
  unfold loadFile
  simp only [h]
  cases error.report <;> rfl

theorem processLine_of_unloadable {line file : String} {error : LoadError}
    (kind : Line.ofText line = .command (.load file)) (named : file.isEmpty = false)
    (h : s.load (Files.Path.ofString file) = .error error) :
    (s.processLine line).answer =
      error.report.map fun report => some (s!"Error loading {file}: " ++ report) := by
  have hcommand : s.command (.load file) = s.loadFile file := by
    simp only [command, named, Bool.false_eq_true, if_false]
  rw [processLine, kind]
  simp only [hcommand, loadFile_of_error h]
  cases error.report <;> rfl

/-- The line has an answer, and the answer tells of whatever fails in it. -/
structure Answered (s : Interpreter) (line : String) : Prop where
  answer : ∃ said, (s.processLine line).answer = .ok said
  unreadable {text : String} {error : ReadError} (kind : Line.ofText line = .program text)
    (h : readProgram text = .error error) :
    (s.processLine line).answer = .ok (some ("Error: " ++ error.message))
  failed {text : String} {statements : List Statement} {error : ExecutionError}
    (kind : Line.ofText line = .program text) (h : readProgram text = .ok statements)
    (ending : (s.executeAll statements).ending = .failed error) :
    ∃ report, (s.processLine line).answer = .ok (some ("\n".intercalate
      ((s.executeAll statements).messages.map Message.text ++ ["Error: " ++ report])))
  unloadable {file : String} {error : LoadError} (kind : Line.ofText line = .command (.load file))
    (named : file.isEmpty = false) (h : s.load (Files.Path.ofString file) = .error error) :
    ∃ report, (s.processLine line).answer = .ok (some (s!"Error loading {file}: " ++ report))

theorem answered_of_ok {line : String} {said : Option String}
    (h : (s.processLine line).answer = .ok said) : s.Answered line where
  answer := ⟨said, h⟩
  unreadable kind hread := by
    obtain ⟨report, hreport, hsaid⟩ :=
      ok_of_map ((processLine_of_unreadable kind hread).symm.trans h)
    rw [h, ← hsaid, ReadError.report_eq_ok hreport]
  failed kind hread ending := by
    obtain ⟨report, -, hsaid⟩ := ok_of_map ((processLine_of_failed kind hread ending).symm.trans h)
    exact ⟨report, by rw [h, hsaid]⟩
  unloadable kind named hload := by
    obtain ⟨report, -, hsaid⟩ :=
      ok_of_map ((processLine_of_unloadable kind named hload).symm.trans h)
    exact ⟨report, by rw [h, hsaid]⟩

/-- Every line is answered and every failure in it reported, and every program text ends with an
exit code, unless an integer is too large or a path has a null character. Texts are rows of Unicode
scalar values: a surrogate that stands alone is none, and what a text or a path with one may come to
is left out. -/
theorem answered_or_cause (s : Interpreter) :
    (∀ line, s.Answered line ∨
      ∃ fatal, (s.processLine line).answer = .error fatal ∧ s.LineCause line fatal) ∧
    ∀ quiet source text, (s.runText quiet source text).exit = .code 0 ∨
      (s.runText quiet source text).exit = .code 1 ∨
      ∃ fatal, (s.runText quiet source text).exit = .fatal fatal ∧
        s.RunCause quiet none 1 (Text.lines text) fatal := by
  refine ⟨fun line => ?_, fun quiet source text => ?_⟩
  · cases h : (s.processLine line).answer with
    | ok said => exact Or.inl (answered_of_ok h)
    | error fatal => exact Or.inr ⟨fatal, rfl, lineCause_of_processLine h⟩
  · rcases s.exit_of_runText quiet source text with hzero | hone | ⟨fatal, hexit, houtcome⟩
    · exact Or.inl hzero
    · exact Or.inr (Or.inl hone)
    · exact Or.inr (Or.inr ⟨fatal, hexit, runCause_of_runScript houtcome⟩)

/-- A row of digits for an integer that is too large is no answerable line in any state. -/
theorem processLine_of_digits (s : Interpreter) {ds : List Char} (nonempty : ds ≠ [])
    (digits : ∀ c ∈ ds, Text.isDigit c = true) (short : ds.length ≤ Number.maxIntDigits)
    (large : Number.intBound ≤ Text.digitsValue ds) :
    (s.processLine (String.ofList ds)).answer = .error .integerTooLarge := by
  rw [processLine, Line.ofText_digits nonempty digits]
  simp only [processProgram, readProgram_digits nonempty digits short large]
  rfl

theorem processLine_of_nines (s : Interpreter) {n : Nat} (positive : n ≠ 0)
    (short : n ≤ Number.maxIntDigits) (large : Number.intBound < Nat.pow 10 n) :
    (s.processLine (String.ofList (List.replicate n '9'))).answer = .error .integerTooLarge := by
  refine s.processLine_of_digits ?_ ?_ ?_ ?_
  · rwa [ne_eq, List.replicate_eq_nil_iff]
  · intro c hc
    rw [List.eq_of_mem_replicate hc]
    decide
  · rwa [List.length_replicate]
  · rw [← Text.digitsValue_nines] at large
    exact Nat.le_of_lt_succ large

/-- A numeral of 309 nines is not answered. -/
theorem processLine_nines : (({} : Interpreter).processLine
    (String.ofList (List.replicate 309 '9'))).answer = .error .integerTooLarge :=
  processLine_of_nines _ (by decide) (by decide) (by decide +kernel)

end Interpreter

end Stepwise
