import SqlScribe.Generation.Answer
import SqlScribe.Proofs.Question.Modest
import SqlScribe.Proofs.Question.Suited

/-!
# Rules that always answer

Over a schema that suits the lexicon the rules have a statement for every question, and so
there is an answer whatever a completion model does. Main statements:

* `accepted_of_build`: the statement of a reading passes the gate;
* `answerByRules_of_build`: what is built is what the rules answer with;
* `answer_humanResources`: over the built-in schema nothing keeps an answer back.
-/

namespace SqlScribe

/-! ## The statement of a reading -/

/-- The lexicon has words for the plan of a reading, whatever the schema. -/
theorem spoken_plan {text : Text} {s : Schema} {p : Plan}
    (h : (readQuestion text s).request.plan (readQuestion text s).intent s = .ok p) :
    ∃ t, p.parts.Spoken t := by
  rw [readQuestion] at h
  rcases (Question.ofText text).read_eq s with ⟨ds, hread⟩ | ⟨name, t, hmem, ht, hread⟩
  · rw [hread] at h
    obtain ⟨t, ht, -, rfl⟩ := Request.plan_eq_ok_iff.1 h
    exact ⟨t, Request.spoken_fallback (Schema.name_of_table? ht)⟩
  · rw [hread] at h
    obtain ⟨t', ht', -, rfl⟩ := Request.plan_eq_ok_iff.1 h
    obtain rfl : t = t' := Option.some.inj (ht.symm.trans ht')
    obtain rfl := Schema.name_of_table? ht
    exact ⟨t, Question.spoken_requestFor hmem _⟩

/-- The statement a reading is built into is accepted. -/
theorem accepted_of_build {text : Text} {s : Schema} {st : Statement}
    (h : (readQuestion text s).request.build (readQuestion text s).intent s = .ok st) :
    Statement.Accepted st.text := by
  obtain ⟨p, hp, rfl⟩ := Request.build_eq_ok_iff.1 h
  obtain ⟨t, ht⟩ := spoken_plan hp
  exact ht.modest.accepted

/-! ## Answers -/

/-- A reading that is built into a statement is answered with it: the gate keeps none
back. -/
theorem answerByRules_of_build {text : Text} {s : Schema} {st : Statement}
    (h : (readQuestion text s).request.build (readQuestion text s).intent s = .ok st) :
    answerByRules text s = .ok ⟨st, readQuestion text s⟩ := by
  have haccepted : Statement.rejection? st.text = none := accepted_of_build h
  rw [answerByRules]
  simp only [h, haccepted]

theorem build_of_suitsLexicon {s : Schema} (hs : s.suitsLexicon = true) (text : Text) :
    ∃ st, (readQuestion text s).request.build (readQuestion text s).intent s = .ok st := by
  obtain ⟨p, hp⟩ := readQuestion_planned hs text
  exact ⟨_, Request.build_eq_ok_iff.2 ⟨p, hp, rfl⟩⟩

/-- Where the rules have an answer, there is one whatever the model contributed. -/
theorem answerWith_of_answerByRules {text : Text} {s : Schema} {a : RuleAnswer}
    (h : answerByRules text s = .ok a) (outcome : ModelOutcome) (d : Dialect) :
    ∃ answered, answerWith text s outcome d = .ok answered := by
  have hrules : ∀ failure, ∃ answered, Answer.ofRules text s failure = .ok answered := by
    intro failure
    rw [Answer.ofRules, h]
    exact ⟨_, rfl⟩
  cases outcome with
  | skipped => exact hrules none
  | failed e => exact hrules _
  | completed raw =>
    rw [answerWith]
    cases Answer.ofCompletion raw d with
    | ok answered => exact ⟨answered, rfl⟩
    | error failure => exact hrules _

theorem suitsLexicon_humanResources : Schema.humanResources.suitsLexicon = true := by
  decide +kernel

/-- **An answer to every question.** Over the built-in schema every text is read as a request
that is built into a statement, the gate accepts the statement, and so the rules answer with
it. There is an answer whatever a completion model wrote, in any dialect, or failed to. -/
theorem answer_humanResources (text : Text) :
    (∃ st, (readQuestion text .humanResources).request.build
        (readQuestion text .humanResources).intent .humanResources = .ok st ∧
      Statement.Accepted st.text ∧
      answerByRules text .humanResources = .ok ⟨st, readQuestion text .humanResources⟩) ∧
    (∀ completion d, ∃ a, answer text .humanResources completion d = .ok a) ∧
    ∀ outcome d, ∃ a, answerWith text .humanResources outcome d = .ok a := by
  obtain ⟨st, hst⟩ := build_of_suitsLexicon suitsLexicon_humanResources text
  have hrules := answerByRules_of_build hst
  have hanswer := answerWith_of_answerByRules hrules
  exact ⟨⟨st, hst, accepted_of_build hst, hrules⟩, fun completion d => hanswer _ d, hanswer⟩

end SqlScribe
