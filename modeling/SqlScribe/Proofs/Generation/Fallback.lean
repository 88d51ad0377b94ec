import SqlScribe.Generation.Desk

/-!
# Falling back on the rules

Where a completion model contributes nothing that can be run, the rules answer as if there
were no model, and what went wrong with the model stands in front of what went wrong with
the rules. Main statements:

* `Answer.fallsBack_ofRules`: a failure of the model moves into the answer of the rules;
* `Desk.followsModel`: a desk answers by what its model did in time;
* `answer_fallsBack`: how the answers with and without a completion are related.
-/

namespace SqlScribe

/-- `FallsBack r plain behind`: the result `behind` is the result `plain` of the rules alone,
with the failure `r` of the model in front of what the rules had to report. -/
inductive FallsBack (r : Degradation) :
    Except AnswerError Answer → Except AnswerError Answer → Prop where
  /-- The rules have an answer. It is the same, and no statement was converted for it. -/
  | answered (a : Answer) (hsource : a.source = none) :
      FallsBack r (.ok a) (.ok { a with degradations := r :: a.degradations })
  /-- The rules have none either. The error tells of both. -/
  | failed (rules : Text) :
      FallsBack r (.error (.noStatement none rules))
        (.error (.noStatement (some r.message) rules))

/-- What went wrong with the model is kept in the answer of the rules. -/
theorem Answer.fallsBack_ofRules (question : Text) (s : Schema) (r : Degradation) :
    FallsBack r (ofRules question s none) (ofRules question s (some r)) := by
  unfold ofRules
  cases answerByRules question s with
  | error e => exact .failed e.message
  | ok a => exact .answered ⟨a.statement, none, some a.reading.intent, a.reading.degradations⟩ rfl

/-! ## Completions -/

/-- A completion that is accepted is the answer, whatever was asked and over whatever schema. -/
theorem answer_of_ofCompletion {completion : Text} {d : Dialect} {a : Answer}
    (h : Answer.ofCompletion completion d = .ok a) (question : Text) (s : Schema) :
    answer question s (some completion) d = .ok a := by
  simp only [answer, answerWith, h]

/-- A completion that is refused leaves the answer to the rules. -/
theorem fallsBack_of_ofCompletion {completion : Text} {d : Dialect} {r : Degradation}
    (h : Answer.ofCompletion completion d = .error r) (question : Text) (s : Schema) :
    FallsBack r (answer question s none d) (answer question s (some completion) d) := by
  simp only [answer, answerWith, h]
  exact Answer.fallsBack_ofRules question s r

/-! ## Desks -/

namespace Desk

variable (desk : Desk) (question : Text)

/-- What the model replies to the prompt for a question. -/
def reply : ModelReply := desk.model (promptFor desk.schema question)

/-- The answer of the rules alone. -/
def plainAnswer : Except AnswerError Answer :=
  SqlScribe.answer question desk.schema none desk.settings.modelDialect

/-- What a desk answers to a question, by what its model does. -/
structure FollowsModel : Prop where
  /-- The settings leave the model out. -/
  skipped : desk.settings.useModel = false →
    (desk.answer question).result = desk.plainAnswer question
  /-- The model has a completion in time. -/
  completed : desk.settings.useModel = true →
    (desk.reply question).delay ≤ desk.settings.model.timeoutMs →
      ∀ completion, (desk.reply question).answer = .ok completion →
        (desk.answer question).result =
          SqlScribe.answer question desk.schema (some completion) desk.settings.modelDialect
  /-- The model fails in time. -/
  failed : desk.settings.useModel = true →
    (desk.reply question).delay ≤ desk.settings.model.timeoutMs →
      ∀ e, (desk.reply question).answer = .error e →
        FallsBack (.modelUnavailable e) (desk.plainAnswer question)
          (desk.answer question).result
  /-- The model takes too long, and what it has to say does not matter. -/
  late : desk.settings.useModel = true →
    desk.settings.model.timeoutMs < (desk.reply question).delay →
      FallsBack (.modelUnavailable (.timeout desk.settings.model.timeoutMs))
        (desk.plainAnswer question) (desk.answer question).result

/-- A failure to get a completion leaves the answer to the rules. -/
theorem fallsBack_of_ask {e : ModelError} (hmodel : desk.settings.useModel = true)
    (h : desk.ask (promptFor desk.schema question) = .error e) :
    FallsBack (.modelUnavailable e) (desk.plainAnswer question)
      (desk.answer question).result := by
  have houtcome : desk.outcome question = .failed e := by
    rw [outcome, if_pos hmodel, h]
  show FallsBack _ _ (answerWith question desk.schema (desk.outcome question) _)
  rw [houtcome]
  exact Answer.fallsBack_ofRules question desk.schema (.modelUnavailable e)

/-- A desk answers by what its model did in time. -/
theorem followsModel : desk.FollowsModel question := by
  have hintime : (desk.reply question).delay ≤ desk.settings.model.timeoutMs →
      desk.ask (promptFor desk.schema question) = (desk.reply question).answer := by
    intro htime
    show (if desk.settings.model.timeoutMs < (desk.reply question).delay then _ else _) = _
    rw [if_neg (Nat.not_lt.2 htime)]
    rfl
  constructor
  case skipped =>
    intro hmodel
    have houtcome : desk.outcome question = .skipped := by
      simp only [outcome, hmodel, Bool.false_eq_true, if_false]
    show answerWith question desk.schema (desk.outcome question) _ = _
    rw [houtcome]
    rfl
  case completed =>
    intro hmodel htime completion hreply
    have houtcome : desk.outcome question = .completed completion := by
      rw [outcome, if_pos hmodel, hintime htime, hreply]
    show answerWith question desk.schema (desk.outcome question) _ = _
    rw [houtcome]
    rfl
  case failed =>
    intro hmodel htime e hreply
    exact fallsBack_of_ask desk question hmodel ((hintime htime).trans hreply)
  case late =>
    intro hmodel hlate
    refine fallsBack_of_ask desk question hmodel ?_
    exact if_pos hlate

end Desk

/-- **The answer behind a failing model.** A completion that is accepted answers every
question over every schema alike. One that is refused leaves the answer to the rules, with
the refusal in front; so does a model that fails or takes too long, and a desk without a
model answers by the rules alone. -/
theorem answer_fallsBack :
    (∀ completion d a, Answer.ofCompletion completion d = .ok a →
      ∀ question s, answer question s (some completion) d = .ok a) ∧
    (∀ completion d r, Answer.ofCompletion completion d = .error r →
      ∀ question s,
        FallsBack r (answer question s none d) (answer question s (some completion) d)) ∧
    ∀ (desk : Desk) question, desk.FollowsModel question :=
  ⟨fun _ _ _ h => answer_of_ofCompletion h, fun _ _ _ h => fallsBack_of_ofCompletion h,
    Desk.followsModel⟩

/-- A desk with a model that takes too long. -/
def Desk.unhurried : Desk where
  schema := .humanResources
  model := fun _ => ⟨20000, .error .disabled⟩
  settings := {}

/-- A fenced statement is accepted, a forbidden one falls back on the rules, and so does a
model that is waited for in vain. -/
theorem answer_fallsBack_examples :
    (Answer.ofCompletion "\x60\x60\x60sql\nselect  1;\x60\x60\x60" .canonical =
        .ok ⟨⟨"select 1;", .canonical, .modelGenerated⟩, none, none, []⟩ ∧
      answer "?" .humanResources (some "\x60\x60\x60sql\nselect  1;\x60\x60\x60") .canonical =
        .ok ⟨⟨"select 1;", .canonical, .modelGenerated⟩, none, none, []⟩) ∧
    (Answer.ofCompletion "DROP TABLE t" .hive =
        .error (.modelOutputRejected (.forbidden "drop")) ∧
      FallsBack (.modelOutputRejected (.forbidden "drop"))
        (answer "?" .humanResources none .hive)
        (answer "?" .humanResources (some "DROP TABLE t") .hive)) ∧
    FallsBack (.modelUnavailable (.timeout 10000)) (Desk.unhurried.plainAnswer "?")
      (Desk.unhurried.answer "?").result := by
  obtain ⟨haccepted, hrefused, hdesk⟩ := answer_fallsBack
  have hone : Completion.clean "\x60\x60\x60sql\nselect  1;\x60\x60\x60" = "select 1;".toList := by
    decide +kernel
  have hgate : Statement.rejection? "select 1;" = none := by decide +kernel
  have hselect : Answer.ofCompletion "\x60\x60\x60sql\nselect  1;\x60\x60\x60" .canonical =
      .ok ⟨⟨"select 1;", .canonical, .modelGenerated⟩, none, none, []⟩ := by
    simp only [Answer.ofCompletion, hone, hgate, Statement.toCanonical, Dialect.pipeline?]
    rfl
  have hdrop : Completion.clean "DROP TABLE t" = "DROP TABLE t;".toList := by decide +kernel
  have hforbidden : Statement.rejection? "DROP TABLE t;" = some (.forbidden "drop") := by
    decide +kernel
  have hdropped : Answer.ofCompletion "DROP TABLE t" .hive =
      .error (.modelOutputRejected (.forbidden "drop")) := by
    simp only [Answer.ofCompletion, hdrop, hforbidden]
    rfl
  exact ⟨⟨hselect, haccepted _ _ _ hselect "?" .humanResources⟩,
    ⟨hdropped, hrefused _ _ _ hdropped "?" .humanResources⟩,
    (hdesk .unhurried "?").late rfl (by decide)⟩

end SqlScribe
