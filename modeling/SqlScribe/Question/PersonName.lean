import SqlScribe.Pattern.Search
import SqlScribe.Question.Lexicon

/-!
# Names of persons

A name is two to four Hangul syllables in quotes, in front of a title with a particle,
or with a particle in front of something that is asked about a person. Words of the
domain that stand in such a place are not taken for names.
-/

namespace SqlScribe

/-- The Hangul syllables. -/
def CharClass.hangul : CharClass := .span '가' '힣'

namespace NamePattern

open Pattern

/-- Two to four syllables, as many as possible by preference. -/
def name : Pattern :=
  group 1 (times 2 (one .hangul) ++ upTo 2 (one .hangul))

/-- No syllable stands in front. -/
def behindNoSyllable : Pattern := oneOf [anchor .textStart, one (.other .hangul)]

/-- One of several words. -/
def oneWord (ws : List Text) : Pattern := oneOf (ws.map literal)

/-- A name in quotes. -/
def quoted : Pattern :=
  one (.among ['\'', '"']) ++ name ++ one (.among ['\'', '"'])

/-- A name, a title and a particle. -/
def titled : Pattern :=
  behindNoSyllable ++ name ++ blanks ++ oneWord ["직원", "사원", "님"]
    ++ oneWord ["의", "이", "가", "을", "를", "은", "는"]

/-- A name with a particle, and what is asked about the person. -/
def asked : Pattern :=
  behindNoSyllable ++ name ++ oneWord ["의", "이", "가", "을", "를", "에게", "한테"] ++ blanks
    ++ oneWord ["급여", "정보", "연봉", "월급", "데이터", "부서", "입사일"]

/-- The places a name may stand in, the surest first. -/
def all : List Pattern := [quoted, titled, asked]

end NamePattern

/-- Whether a word for a department or a column stands in the text. -/
def namesField (t : Text) : Bool :=
  (departmentRules.flatMap DepartmentRule.keywords ++ columnRules.flatMap ColumnRule.keywords).any
    fun k => !k.isAscii && Text.occursIn k t

/-- The word without the ending of the plural. -/
def singular (t : Text) : Text := if Text.endsWith t "들" then t.dropLast else t

/-- Whether a word that stands where a name could stand is none. -/
def isNoName (t : Text) : Bool :=
  let stem := singular t
  nonNames.contains t || nonNames.contains stem || stem.getLast?.any roleEndings.contains
    || namesField stem

/-- The name of a person in a text. -/
def personNameIn? (t : Text) : Option Text :=
  NamePattern.all.findSome? fun p =>
    ((p.findAll t).map fun m => m.group 1).find? fun n => !isNoName n

end SqlScribe
