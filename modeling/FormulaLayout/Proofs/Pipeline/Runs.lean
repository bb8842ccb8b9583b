/-
Many runs on one pipeline.

A job is an input together with an output that has room for so many lines and may refuse its flush. Up to the stage that
writes, a run is the typesetting of its input (`typeset_eq_map_render`), and that stage is one write of the whole
document and a flush, since the output does not see how the document is cut. So a job fails with the fault of its
input and leaves the output empty, or the output holds the lines of the document that it had room for.

Of the runs before it a job sees only their number, and every run adds to that number or leaves it as it is
(`perform_runs`); a run over a list of jobs follows by induction on the jobs.

- `serve_all_or_nothing`: what every job of a list gets, and how many complete runs there were behind each.
-/
import FormulaLayout.Pipeline
import FormulaLayout.Proofs.Svg.Document

namespace FormulaLayout

/-- the whole document of a drawing in the configured format -/
def Config.document (config : Config) (drawing : Drawing Float32) : String :=
  match config.format with
  | .svg => Svg.document config.svgOptions drawing
  | .json => drawing.toJson ++ "\n"

/-- an input, how many lines its output has room for, and the messages with which the output fails -/
structure Job where
  input : String
  room : Option Nat
  full : String
  flushError? : Option String

/-- the result of a run, the text it left on its output, and the number of complete runs behind it -/
structure Answer where
  result : Except Fault Rendering
  output : String
  runs : Nat

/-- the run was complete -/
def Answer.succeeded (answer : Answer) : Bool :=
  answer.result.isOk

namespace Job

/-- the output of the job -/
def device (job : Job) : Device LimitedOutput String :=
  .limited job.full job.flushError?

/-- the output before anything is written -/
def blank (job : Job) : LimitedOutput :=
  ⟨"", job.room⟩

/-- why the output does not take a document, if it does not -/
def complaint? (job : Job) (document : String) : Option String :=
  if LinesFit job.room document then job.flushError? else some job.full

end Job

namespace Pipeline

/-- the run of a job on an output of its own -/
def perform (p : Pipeline) (job : Job) : Pipeline × Answer :=
  let (result, p, out) := p.run job.device job.input job.blank
  (p, ⟨result, out.text, p.runs⟩)

/-- the runs of several jobs, one after the other -/
def serve (p : Pipeline) : List Job → List Answer
  | [] => []
  | job :: jobs => (p.perform job).2 :: (p.perform job).1.serve jobs

end Pipeline

/-- what the job gets from a pipeline with the configuration -/
structure Job.Served (config : Config) (job : Job) (answer : Answer) : Prop where
  /-- runs before this one, however many, have no part in it -/
  independent : ∀ runs, ((Pipeline.mk config runs).perform job).2.result = answer.result ∧
    ((Pipeline.mk config runs).perform job).2.output = answer.output
  /-- a fault of the input is the result, and nothing is written -/
  refused : ∀ fault, typeset job.input config = .error fault → answer.result = .error fault ∧ answer.output = ""
  /-- otherwise the output holds the first lines of the document -/
  output : ∀ drawing, typeset job.input config = .ok drawing →
    answer.output = keepLines job.room (config.document drawing)
  /-- the run succeeds with the drawing exactly if all lines fit and can be flushed -/
  complete : ∀ drawing, typeset job.input config = .ok drawing →
    ((∃ rendering, answer.result = .ok rendering ∧ rendering.drawing = drawing) ↔
      LinesFit job.room (config.document drawing) ∧ job.flushError? = none)
  /-- and fails with the message of the output if it does not -/
  incomplete : ∀ drawing, typeset job.input config = .ok drawing →
    ¬ (LinesFit job.room (config.document drawing) ∧ job.flushError? = none) →
      ∃ message, job.complaint? (config.document drawing) = some message ∧ answer.result = .error (.io message)

theorem Job.complaint?_eq_none_iff {job : Job} {document : String} :
    job.complaint? document = none ↔ LinesFit job.room document ∧ job.flushError? = none := by
  by_cases h : LinesFit job.room document <;> simp [complaint?, h]

/-! ## The document -/

theorem Config.document_ends_line (config : Config) (drawing : Drawing Float32) :
    ∃ body, config.document drawing = body ++ "\n" := by
  rw [document]
  cases config.format with
  | svg => exact Svg.document_ends_line config.svgOptions drawing
  | json => exact ⟨drawing.toJson, rfl⟩

namespace Pipeline

/-- writing a drawing is writing its document -/
theorem writeDrawing_seamless {σ : Type} {device : Device σ String} (h : device.Seamless) (config : Config)
    (drawing : Drawing Float32) (out : σ) :
    writeDrawing device config drawing out = (device.write out (config.document drawing)).andThen device.flush := by
  rw [writeDrawing, Config.document]
  cases config.format with
  | svg => exact Svg.writeDocument_seamless h config.svgOptions drawing out
  | json => rfl

/-- the output of a job behind the document of a drawing: the lines that fit, and a complaint if not all of them did -/
theorem writeDrawing_job (job : Job) (config : Config) (drawing : Drawing Float32) :
    (writeDrawing job.device config drawing job.blank).state.text = keepLines job.room (config.document drawing) ∧
      (writeDrawing job.device config drawing job.blank).error? = job.complaint? (config.document drawing) := by
  obtain ⟨body, hbody⟩ := config.document_ends_line drawing
  have hfit : keepLines job.room (config.document drawing) = config.document drawing ↔
      LinesFit job.room (config.document drawing) := by
    rw [hbody]
    exact keepLines_eq_self_iff
  rw [Job.device, writeDrawing_seamless (Device.limited_seamless job.full job.flushError?), Device.limited_write,
    Job.complaint?]
  simp only [Job.blank, hfit]
  by_cases h : LinesFit job.room (config.document drawing)
  · simp [h, Outcome.andThen, Device.limited]
  · simp [h, Outcome.andThen]

/-! ## One run -/

/-- a run typesets its input -/
theorem typeset_eq_map_render (config : Config) (input : String) :
    typeset input config = (render config input).map Rendering.drawing := by
  rw [typeset, render]
  cases hparse : Notation.parse input with
  | error fault => rfl
  | ok e =>
    simp only [Except.mapError, bind, Except.bind, drawExpr]
    cases hlayout : config.engine.layout e with
    | error fault => rfl
    | ok tree =>
      cases hdraw : tree.draw with
      | error command => simp [hdraw, Except.map]
      | ok drawing => simp [hdraw, Except.map, pure, Except.pure]

/-- all that the run of a job can do: fail in front of the output, fail at the output, or succeed -/
theorem perform_cases (p : Pipeline) (job : Job) :
    (∃ fault, typeset job.input p.config = .error fault ∧ p.perform job = (p, ⟨.error fault, "", p.runs⟩)) ∨
      ∃ rendering, typeset job.input p.config = .ok rendering.drawing ∧
        ((∃ message, job.complaint? (p.config.document rendering.drawing) = some message ∧
            p.perform job =
              (p, ⟨.error (.io message), keepLines job.room (p.config.document rendering.drawing), p.runs⟩)) ∨
          job.complaint? (p.config.document rendering.drawing) = none ∧
            p.perform job =
              ({ p with runs := p.runs + 1 },
                ⟨.ok rendering, keepLines job.room (p.config.document rendering.drawing), p.runs + 1⟩)) := by
  rw [typeset_eq_map_render, perform, run]
  cases render p.config job.input with
  | error fault => exact .inl ⟨fault, rfl, rfl⟩
  | ok rendering =>
    obtain ⟨htext, herror⟩ := writeDrawing_job job p.config rendering.drawing
    refine .inr ⟨rendering, rfl, ?_⟩
    rw [← htext, ← herror]
    dsimp only
    rcases writeDrawing job.device p.config rendering.drawing job.blank with ⟨out, _ | message⟩
    · exact .inr ⟨rfl, rfl⟩
    · exact .inl ⟨message, rfl, rfl⟩

/-- a run does not see how many there were before it -/
theorem perform_independent (config : Config) (job : Job) (m n : Nat) :
    ((mk config m).perform job).2.result = ((mk config n).perform job).2.result ∧
      ((mk config m).perform job).2.output = ((mk config n).perform job).2.output := by
  rw [perform, perform, run, run]
  cases render config job.input with
  | error fault => exact ⟨rfl, rfl⟩
  | ok rendering =>
    dsimp only
    rcases writeDrawing job.device config rendering.drawing job.blank with ⟨out, _ | message⟩ <;> exact ⟨rfl, rfl⟩

theorem perform_config (p : Pipeline) (job : Job) : (p.perform job).1.config = p.config := by
  obtain ⟨fault, -, h⟩ | ⟨rendering, -, ⟨message, -, h⟩ | ⟨-, h⟩⟩ := p.perform_cases job <;> rw [h]

/-- a run adds one to the number of complete runs if it succeeded, and nothing if it failed -/
theorem perform_runs (p : Pipeline) (job : Job) :
    (p.perform job).1.runs = (p.perform job).2.runs ∧
      (p.perform job).2.runs = p.runs + if (p.perform job).2.succeeded then 1 else 0 := by
  obtain ⟨fault, -, h⟩ | ⟨rendering, -, ⟨message, -, h⟩ | ⟨-, h⟩⟩ := p.perform_cases job <;> rw [h] <;> exact ⟨rfl, rfl⟩

/-- one run, behind any number of others -/
theorem perform_served (p : Pipeline) (job : Job) : job.Served p.config (p.perform job).2 := by
  have hindependent := fun runs => perform_independent p.config job runs p.runs
  obtain ⟨fault, htypeset, h⟩ | ⟨rendering, htypeset, h⟩ := p.perform_cases job
  · refine ⟨hindependent, ?_, ?_, ?_, ?_⟩ <;> rw [htypeset]
    · rintro _ ⟨⟩
      rw [h]
      exact ⟨rfl, rfl⟩
    all_goals exact nofun
  · refine ⟨hindependent, ?_, ?_, ?_, ?_⟩ <;> rw [htypeset]
    · exact nofun
    · rintro _ ⟨⟩
      obtain ⟨message, -, h⟩ | ⟨-, h⟩ := h <;> rw [h]
    · rintro _ ⟨⟩
      rw [← Job.complaint?_eq_none_iff]
      obtain ⟨message, hmessage, h⟩ | ⟨hmessage, h⟩ := h <;> rw [h, hmessage]
      · exact iff_of_false nofun nofun
      · exact iff_of_true ⟨rendering, rfl, rfl⟩ rfl
    · rintro _ ⟨⟩ hfailed
      rw [← Job.complaint?_eq_none_iff] at hfailed
      obtain ⟨message, hmessage, h⟩ | ⟨hmessage, -⟩ := h
      · rw [h]
        exact ⟨message, hmessage, rfl⟩
      · exact absurd hmessage hfailed

/-! ## All runs -/

theorem serve_cons (p : Pipeline) (job : Job) (jobs : List Job) :
    p.serve (job :: jobs) = (p.perform job).2 :: (p.perform job).1.serve jobs :=
  rfl

/-- **A pipeline serves every job on its own and counts the complete runs.** -/
theorem serve_all_or_nothing (p : Pipeline) (jobs : List Job) :
    List.Forall₂ (Job.Served p.config) jobs (p.serve jobs) ∧
      ∀ (i : Nat) (h : i < (p.serve jobs).length),
        (p.serve jobs)[i].runs = p.runs + ((p.serve jobs).take (i + 1)).countP Answer.succeeded := by
  induction jobs generalizing p with
  | nil => exact ⟨.nil, nofun⟩
  | cons job jobs ih =>
    obtain ⟨hserved, hruns⟩ := ih (p.perform job).1
    rw [p.perform_config job] at hserved
    obtain ⟨hnext, hcount⟩ := p.perform_runs job
    refine ⟨.cons (p.perform_served job) hserved, fun i h => ?_⟩
    cases i with
    | zero => simpa [serve_cons] using hcount
    | succ i =>
      have hrest := hruns i (Nat.lt_of_succ_lt_succ h)
      simp only [serve_cons, List.getElem_cons_succ, List.take_succ_cons, List.countP_cons]
      rw [hrest, hnext, hcount]
      omega

/-- a document that is cut, an input that is refused, and a document whose six lines fit exactly -/
example : ((mk .standard 0).serve
    [⟨"a", some 5, "disk full", none⟩, ⟨"a/", none, "disk full", none⟩, ⟨"a", some 6, "disk full", none⟩]).map
      Answer.runs = [0, 0, 1] := by
  decide +kernel

end Pipeline

end FormulaLayout
