import Octet.CommandLine.Reply
import Octet.Proofs.Draft.Sites
import Octet.Proofs.Machine.Stopping
import Octet.Proofs.Program.Containment
import Octet.Proofs.Program.Running
import Octet.Proofs.Program.Spacing
import Octet.Proofs.Text.Utf8

/-!
# The command line and its library

A program can be run in two ways.  A host gives its text to the library, which compiles it and runs
the image, and is handed what the program writes, text by text.  The command line is given the name
of a file.  It goes the same way on its own: it has its own messages for what may fail, and joins
what is written.

## What the library does

`Source.RunsWithin` is a run of a text, with a limit of steps or without one.  Without one it need
not end.  What it comes to is a fault of the text, or the result of the run together with the texts
that were written, and those are there if the run fails as well.

## What the command line does

`Report.Conveys` spells what is reported of a run that came to something: the exit code, what is
written, and the one message about a fault.  A fault of laying out is shown with its place if it has
one, and a place is whole (`located_of_layOut`).  A run fails in an instruction and in no other way,
since nobody asks the machine to stop (`compile_contained`).

The two agree in both directions (`invoke_agrees`).  If a run comes to something, it is reported as
soon as there is fuel enough, and nothing else is ever reported.  A run that goes on has written on
the command line what it has written to the library after so many steps.
-/

namespace Octet

/-! ## Running a text within a limit -/

namespace Source

/-- What running a text comes to: a fault of the text, or the result of the run and the texts that
were written. -/
abbrev Upshot : Type :=
  Except SourceError (Except MachineError (Option Scalar) × Array String)

/-- A text is compiled, and its image is run on a fresh machine for at most some number of steps, or
for as long as it takes. -/
inductive RunsWithin (text : String) : Option Int → Upshot → Prop
  | unlimited {x : Upshot} (h : Runs text x) : RunsWithin text none x
  | refused {limit : Int} {e : SourceError} (h : compile text = .error e) :
      RunsWithin text (some limit) (.error e)
  | limited {limit : Int} {image : Image} {r : Except MachineError Outcome} {s : State}
      (hcompile : compile text = .ok image)
      (hrun : (Machine.run .standard limit).perform ⟨image, defaultMaxStack⟩ {} = (r, s)) :
      RunsWithin text (some limit) (.ok (r.map Outcome.value, s.output))

/-- A text that is read comes to the layout of its program. -/
theorem compile_of_layOut {text : String} {p : Program} {compiled : Except CompileError Image}
    {draft : Draft} (hparse : parse text = .ok p) (hlayout : p.layOut = (compiled, draft)) :
    compile text = compiled.mapError .compile := by
  rw [compile_of_parse hparse, Program.compile, hlayout]

end Source

namespace CommandLine

/-! ## Reports -/

/-- The report of a run of a file that came to something. -/
inductive Report.Conveys (file : String) : Source.Upshot → Report → Prop
  | lex (e : LexError) :
      Conveys file (.error (.lex e)) ⟨1, "", "Syntax error at " ++ file ++
        (":" ++ toString e.pos.line ++ ":" ++ toString e.pos.col) ++ ": " ++
        e.fault.message ++ "\n"⟩
  | parse (e : ParseError) :
      Conveys file (.error (.parse e)) ⟨1, "", "Syntax error at " ++ file ++
        (":" ++ toString e.pos.line ++ ":" ++ toString e.pos.col) ++ ": " ++ e.message ++ "\n"⟩
  | compilePlaced (fault : CompileFault) (line col : Nat) :
      Conveys file (.error (.compile ⟨fault, some line, some col⟩)) ⟨1, "", "Compile error in " ++
        file ++ (":" ++ toString line ++ ":" ++ toString col) ++ ": " ++ fault.message ++ "\n"⟩
  | compile (e : CompileError) (hline : e.site.line = none) :
      Conveys file (.error (.compile e))
        ⟨1, "", "Compile error in " ++ file ++ ": " ++ e.fault.message ++ "\n"⟩
  | trap (cause : Trap) (offset : Nat) (texts : Array String) :
      Conveys file (.ok (.error (.trap cause offset), texts)) ⟨1, String.join texts.toList,
        "Runtime error at offset " ++ toString offset ++ ": " ++ cause.message ++ "\n"⟩
  | returned (value : Option Scalar) (texts : Array String) :
      Conveys file (.ok (.ok value, texts)) ⟨0, String.join texts.toList, ""⟩

/-- The exit code says whether the run has returned. -/
theorem Report.Conveys.exit_eq_zero_iff {file : String} {report : Report} {x : Source.Upshot}
    (h : report.Conveys file x) :
    report.exit = 0 ↔ ∃ value texts, x = .ok (.ok value, texts) := by
  cases h with
  | returned value texts => exact ⟨fun _ => ⟨value, texts, rfl⟩, fun _ => rfl⟩
  | _ => exact ⟨nofun, by rintro ⟨_, _, ⟨⟩⟩⟩

theorem Report.Conveys.exit_eq {file : String} {report : Report} {x : Source.Upshot}
    (h : report.Conveys file x) : report.exit = 0 ∨ report.exit = 1 := by
  cases h with
  | returned value texts => exact .inl rfl
  | _ => exact .inr rfl

variable (path : Path) {text : String}

/-! ## Faults of a text -/

/-- A fault of a program is shown with its place if it has one. -/
theorem conveys_compileMessage {e : CompileError} (h : e.Located) :
    Report.Conveys path.text (.error (.compile e)) ⟨1, "", compileMessage path e⟩ := by
  cases h with
  | @placed fault _ pos =>
    have hmessage : compileMessage path ⟨fault, .ofPos pos⟩ =
        "Compile error in " ++ path.text ++ (":" ++ toString pos.line ++ ":" ++ toString pos.col) ++
          ": " ++ fault.message ++ "\n" := rfl
    rw [hmessage]
    exact .compilePlaced fault pos.line pos.col
  | @nowhere fault _ =>
    have hmessage : compileMessage path ⟨fault, .unknown⟩ =
        "Compile error in " ++ path.text ++ "" ++ ": " ++ fault.message ++ "\n" := rfl
    rw [hmessage, String.append_empty]
    exact .compile ⟨fault, .unknown⟩ rfl

/-- Reading a text fails in one of its two stages. -/
theorem conveys_of_parse {e : SourceError} (h : Source.parse text = .error e) :
    Report.Conveys path.text (.error e) ⟨1, "", sourceMessage path e⟩ := by
  rw [Source.parse] at h
  cases htokens : tokenize text with
  | error e' =>
    rw [htokens] at h
    cases h
    exact .lex e'
  | ok tokens =>
    rw [htokens] at h
    have herror : (Program.ofTokens tokens).mapError SourceError.parse = .error e := h
    cases hprogram : Program.ofTokens tokens with
    | error e' =>
      rw [hprogram] at herror
      cases herror
      exact .parse e'
    | ok p =>
      rw [hprogram] at herror
      cases herror

/-- A text that is refused is reported with its fault. -/
theorem runText_of_refused (o : Options) {e : SourceError} (h : Source.compile text = .error e) :
    ∃ report : Report, report.Conveys path.text (.error e) ∧
      ∀ fuel, runText o path text fuel = .finished report := by
  simp only [runText]
  cases hparse : Source.parse text with
  | error e' =>
    have he : e' = e := by
      rw [Source.compile, hparse] at h
      cases h
      rfl
    subst he
    exact ⟨_, conveys_of_parse path hparse, fun _ => rfl⟩
  | ok p =>
    dsimp only
    rcases hlayout : p.layOut with ⟨e' | image, draft⟩
    · cases (Source.compile_of_layOut hparse hlayout).symm.trans h
      exact ⟨_, conveys_compileMessage path (located_of_layOut hlayout), fun _ => rfl⟩
    · cases (Source.compile_of_layOut hparse hlayout).symm.trans h

/-! ## Runs -/

/-- What a command line asks for that names a file, and a limit if there is one. -/
def Options.quiet (source : String) (limit : Option Int) : Options :=
  ⟨source, false, limit.elim .unlimited .steps⟩

variable {source : String} {limit : Option Int} {image : Image} {fuel : Nat}

/-- A text that has an image is run, and nothing is logged. -/
theorem runText_of_compile (source : String) (limit : Option Int) (fuel : Nat)
    (h : Source.compile text = .ok image) :
    runText (.quiet source limit) path text fuel =
      runImage (.quiet source limit) image fuel "" := by
  rw [runText]
  cases hparse : Source.parse text with
  | error e =>
    rw [Source.compile, hparse] at h
    cases h
  | ok p =>
    dsimp only
    rcases hlayout : p.layOut with ⟨e | image', draft⟩
    · cases (Source.compile_of_layOut hparse hlayout).symm.trans h
    · cases (Source.compile_of_layOut hparse hlayout).symm.trans h
      rfl

/-- A run within a limit is over after that many steps. -/
theorem runImage_limited (source : String) (n : Int) (image : Image) (fuel : Nat) :
    runImage (.quiet source (some n)) image fuel "" =
      .finished (.ofRun (.quiet source (some n)) "" (image.runFor n.toNat)) := rfl

/-- A run without a limit is over if it ends before its fuel is used up. -/
theorem runImage_ended (source : String) {r : Except MachineError (Option Scalar)} {s : State}
    (hrun : image.runFor fuel = (r.map .finished, s)) :
    runImage (.quiet source none) image fuel "" =
      .finished (.ofRun (.quiet source none) "" (r.map .finished, s)) := by
  rw [runImage.eq_def]
  simp only [Options.quiet, Option.elim_none, hrun]
  cases r <;> rfl

/-- A run without a limit that goes on has written this so far. -/
theorem runImage_exhausted (source : String) {s : State}
    (hrun : image.runFor fuel = (.ok .exhausted, s)) :
    runImage (.quiet source none) image fuel "" = .unfinished (written s) := by
  rw [runImage.eq_def]
  simp only [Options.quiet, Option.elim_none, hrun]

/-- A run that is over is reported with what was written. -/
theorem conveys_ofRun (source : String) (limit : Option Int)
    (h : Source.compile text = .ok image) {r : Except MachineError Outcome} {s : State}
    {budget : Option Int}
    (hends : (Machine.Call.run budget).Ends ⟨image, defaultMaxStack⟩ {} (r.map .ran) s) :
    (Report.ofRun (.quiet source limit) "" (r, s)).Conveys path.text
      (.ok (r.map Outcome.value, s.output)) := by
  cases r with
  | error e =>
    obtain ⟨cause, offset, -, rfl, -⟩ := (compile_contained text).2 image h budget e s hends
    exact .trap cause offset s.output
  | ok outcome => exact .returned outcome.value s.output

theorem conveys_ofRun_finished (source : String) (limit : Option Int)
    (h : Source.compile text = .ok image) {r : Except MachineError (Option Scalar)} {s : State}
    (hrun : image.runFor fuel = (r.map .finished, s)) :
    (Report.ofRun (.quiet source limit) "" (r.map .finished, s)).Conveys path.text
      (.ok (r, s.output)) := by
  have hvalue : (r.map Outcome.finished).map Outcome.value = r := by cases r <;> rfl
  have hconveys := conveys_ofRun path source limit h
    (.runToEnd hrun (Machine.map_finished_ne r))
  rwa [hvalue] at hconveys

/-! ## Agreement -/

/-- The reply to a command line: a run that came to something is reported, and one without a limit
may still go on. -/
inductive Reply.Conveys (path : Path) (text : String) (fuel : Nat) : Option Int → Reply → Prop
  | finished {limit : Option Int} {report : Report} {x : Source.Upshot}
      (hruns : Source.RunsWithin text limit x) (h : report.Conveys path.text x) :
      Conveys path text fuel limit (.finished report)
  | unfinished {image : Image} {s : State} (hcompile : Source.compile text = .ok image)
      (hrun : image.runFor fuel = (.ok .exhausted, s)) :
      Conveys path text fuel none (.unfinished (String.join s.output.toList))

theorem runText_conveys (source : String) (limit : Option Int) (fuel : Nat) :
    (runText (.quiet source limit) path text fuel).Conveys path text fuel limit := by
  cases hcompile : Source.compile text with
  | error e =>
    obtain ⟨report, hconveys, hreply⟩ := runText_of_refused path (.quiet source limit) hcompile
    rw [hreply]
    cases limit with
    | none => exact .finished (.unlimited (.refused hcompile)) hconveys
    | some n => exact .finished (.refused hcompile) hconveys
  | ok image =>
    rw [runText_of_compile path source limit fuel hcompile]
    cases limit with
    | some n =>
      rw [runImage_limited]
      exact .finished (.limited hcompile rfl) (conveys_ofRun path source _ hcompile (.run rfl))
    | none =>
      rcases hrun : image.runFor fuel with ⟨r, s⟩
      by_cases hended : r = .ok .exhausted
      · subst hended
        rw [runImage_exhausted source hrun]
        exact .unfinished hcompile hrun
      · obtain ⟨r, rfl⟩ := Machine.exists_map_finished hended
        rw [runImage_ended source hrun]
        exact .finished (.unlimited (.ended hcompile (Machine.runs_of_runFor hrun)))
          (conveys_ofRun_finished path source none hcompile hrun)

/-- A run that comes to something is reported as soon as there is fuel enough. -/
theorem exists_conveys (source : String) {x : Source.Upshot}
    (h : Source.RunsWithin text limit x) :
    ∃ report : Report, report.Conveys path.text x ∧ ∃ least, ∀ fuel, least ≤ fuel →
      runText (.quiet source limit) path text fuel = .finished report := by
  have hrefused : ∀ {e : SourceError}, Source.compile text = .error e →
      ∃ report : Report, report.Conveys path.text (.error e) ∧ ∃ least, ∀ fuel, least ≤ fuel →
        runText (.quiet source limit) path text fuel = .finished report := fun hcompile =>
    let ⟨report, hconveys, hreply⟩ := runText_of_refused path _ hcompile
    ⟨report, hconveys, 0, fun fuel _ => hreply fuel⟩
  cases h with
  | refused hcompile => exact hrefused hcompile
  | @limited n image r s hcompile hrun =>
    refine ⟨_, conveys_ofRun path source (some n) hcompile (.run hrun), 0, fun fuel _ => ?_⟩
    have hended : image.runFor n.toNat = (r, s) := hrun
    rw [runText_of_compile path source _ fuel hcompile, runImage_limited, hended]
  | unlimited hruns =>
    cases hruns with
    | refused hcompile => exact hrefused hcompile
    | @ended image r s hcompile hruns =>
      obtain ⟨least, hleast⟩ := Machine.runs_iff.1 hruns
      have hends := hleast least (Nat.le_refl least)
      refine ⟨_, conveys_ofRun_finished path source none hcompile hends, least, ?_⟩
      intro fuel hfuel
      rw [runText_of_compile path source _ fuel hcompile]
      exact runImage_ended source (hleast fuel hfuel)

/-- The text of a file: all of its lines end in a line feed. -/
def fileText (contents : String) : String :=
  String.ofList (Text.unifyNewlines contents.toList)

/-- **The command line agrees with the library.**  Given a file that spells a text in UTF-8 and a
limit of steps or none, and without a log, it reports what running that text within that limit comes
to, and reports it as soon as there is fuel enough.  It returns zero if and only if the run returns,
and one otherwise.  The only other answer is that the run goes on, with what it has written. -/
theorem invoke_agrees {read : Path → Except ReadFault (List UInt8)} {arguments : List String}
    {source : String} {limit : Option Int} {contents : String}
    (hrequest : Request.ofArguments arguments =
      .run ⟨source, false, limit.elim .unlimited .steps⟩)
    (hname : Char.ofNat 0 ∉ source.toList)
    (hread : read (.ofText source) = .ok contents.toByteArray.data.toList) :
    (∀ x, Source.RunsWithin (fileText contents) limit x →
      ∃ report : Report, report.Conveys (Path.ofText source).text x ∧
        (report.exit = 0 ↔ ∃ value texts, x = .ok (.ok value, texts)) ∧
        (report.exit = 0 ∨ report.exit = 1) ∧
        ∃ least, ∀ fuel, least ≤ fuel → invoke read arguments fuel = .finished report) ∧
    ∀ fuel,
      (invoke read arguments fuel).Conveys (.ofText source) (fileText contents) fuel limit := by
  have hreply : ∀ fuel, invoke read arguments fuel =
      runText (.quiet source limit) (.ofText source) (fileText contents) fuel := by
    intro fuel
    have hnotMem : source.toList.contains (Char.ofNat 0) = false := by simpa using hname
    simp only [invoke, hrequest, hnotMem, hread, run, Text.Utf8.decode_toByteArray]
    rfl
  refine ⟨fun x hruns => ?_, fun fuel => ?_⟩
  · obtain ⟨report, hconveys, least, hleast⟩ := exists_conveys (.ofText source) source hruns
    refine ⟨report, hconveys, hconveys.exit_eq_zero_iff, hconveys.exit_eq, least, ?_⟩
    intro fuel hfuel
    rw [hreply, hleast fuel hfuel]
  · rw [hreply]
    exact runText_conveys (.ofText source) source limit fuel

/-- A file whose lines end in different ways: a carriage return ends the comment, and one is part of
a line end inside the text. -/
def halves : String := "// halves\rprint_str(\"a\r\nb\");print_int(7 / 0);"

/-- Every path leads to that file. -/
def readHalves (_ : Path) : Except ReadFault (List UInt8) :=
  .ok halves.toByteArray.data.toList

/-- The image of its text. -/
def halvesImage : Image :=
  ⟨[0xfa, 0, 0xfe, 2, 0x01, 0, 0, 0, 7, 0x01, 0, 0, 0, 0, 0x0f, 0xfe, 0], ["a\nb"]⟩

theorem invoke_agrees_halves :
    Source.RunsWithin (fileText halves) (some 50)
      (.ok (.error (.trap .divisionByZero 14), #["a\nb\n"])) ∧
    ∃ least, ∀ fuel, least ≤ fuel →
      invoke readHalves ["--max-steps", "50", "halves"] fuel =
        .finished ⟨1, "a\nb\n", "Runtime error at offset 14: Division by zero\n"⟩ := by
  have hcompile : Source.compile (fileText halves) = .ok halvesImage :=
    eq_ok_of_toOption (by decide +kernel)
  obtain ⟨s, hrun, houtput⟩ : ∃ s, (Machine.run .standard 50).perform
      ⟨halvesImage, defaultMaxStack⟩ {} = (.error (.trap .divisionByZero 14), s) ∧
      s.output = #["a\nb\n"] := ⟨_, rfl, by decide +kernel⟩
  have hruns : Source.RunsWithin (fileText halves) (some 50)
      (.ok (.error (.trap .divisionByZero 14), #["a\nb\n"])) := by
    rw [← houtput]
    exact .limited hcompile hrun
  have hrequest : Request.ofArguments ["--max-steps", "50", "halves"] =
      .run ⟨"halves", false, (some 50).elim .unlimited .steps⟩ := by decide +kernel
  have hname : Char.ofNat 0 ∉ "halves".toList := by decide +kernel
  have hread : readHalves (.ofText "halves") = .ok halves.toByteArray.data.toList := rfl
  obtain ⟨report, hconveys, -, -, least, hleast⟩ := (invoke_agrees hrequest hname hread).1 _ hruns
  refine ⟨hruns, least, ?_⟩
  cases hconveys
  exact hleast

end CommandLine
end Octet
