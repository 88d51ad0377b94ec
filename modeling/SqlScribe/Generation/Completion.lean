import SqlScribe.Pattern.Search
import SqlScribe.Schema.Basic
import SqlScribe.Statement.Basic

/-!
# Completions

What a completion model is asked, and what is made of its answer. Of an answer the first
fenced block counts if there is one, without a label in front; what follows the first `;`
does not count, and the rest is brought to normal form.
-/

namespace SqlScribe

/-! ## The question to the model -/

/-- What the model is told to keep to, in Korean. -/
def generationRules : Text :=
  "규칙:\n1. SELECT 문 하나만 출력하고 설명은 쓰지 마세요.\n" ++
  "2. 금액은 원 단위 정수로 바꾸세요: 1만원 = 10000, 1천만원 = 10000000, 1억 = 100000000.\n" ++
  "3. 날짜는 strftime을 사용하세요: strftime('%Y', hire_date).\n" ++
  "4. 결과가 많을 수 있으면 LIMIT을 붙이세요.\n"

/-- The prompt for a question: the tables, the rules, and the question itself. -/
def promptFor (s : Schema) (question : Text) : Text :=
  s.listing ++ generationRules ++ "\n질문: " ++ question.trim ++ "\nSQL:"

/-! ## The answer of the model -/

namespace CompletionPattern

open Pattern

/-- Three backticks. -/
def fence : Pattern := literal "\x60\x60\x60"

/-- A fenced block, with its content behind the name of a language as group 1. -/
def block : Pattern :=
  fence ++ run (.either (.span 'a' 'z') (.span 'A' 'Z')) ++ blanks
    ++ group 1 (lazyStar (one .any)) ++ fence

/-- A label in front of a statement. -/
def label : Pattern :=
  anchor .textStart ++ blanks ++ letters "sql" ++ blanks ++ literal ":" ++ blanks

end CompletionPattern

namespace Completion

/-- The content of the first fenced block, or the whole text when there is none. -/
def unfenced (t : Text) : Text :=
  match CompletionPattern.block.find? t with
  | some m => (m.group 1).trim
  | none => t

/-- The text without a label in front. -/
def unlabelled (t : Text) : Text :=
  match CompletionPattern.label.matchAt? none t with
  | some m => m.after
  | none => t

/-- The text up to its first semicolon. -/
def firstStatement (t : Text) : Text := t.takeWhile (· != ';')

/-- The statement in a completion, in normal form; empty when there is none. -/
def clean (raw : Text) : Text :=
  let sql := firstStatement (unlabelled (unfenced raw.trim))
  if sql.isAllBlank then [] else Statement.normalize sql

end Completion

end SqlScribe
